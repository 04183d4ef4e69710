import Uniwm.Desktops.Refresh
import Uniwm.Model.Ownership

/-!
# uniwm — what a refresh takes, it gives back

Each reference that `GetAt` gives moves: the loop of `refresh` holds it, then `wrap_desktop`
or `desktop_update` puts it into a record, or the way out of a failure releases it. The same
goes for names and records. `Accounts t ds loose arrays` says that the records `ds` hold all
that has not been given back, apart from the `loose` references and the `arrays`.

* `toTarget_refresh`, `toTarget_run` — the accounts apart, these are the refreshes of
  `Uniwm.Model.Desktops`.
* `Accounts.refresh` — what a refresh takes ends in the cache or is given back.
* `refresh_owns` — so it is after any refreshes, and after `win_destroy` nothing is left.
-/

namespace Uniwm

open Base

namespace OwnedTarget

/-! ## The cache under the accounts -/

section Erasure

variable (t : OwnedTarget) (e : OwnedElement) (vd : IVirtualDesktop) (ordinal : Nat)

theorem map_updateItems {id : GUID} {f : OwnedDesktop → OwnedDesktop}
    {g : VDesktop → VDesktop} (hf : ∀ d, (f d).desktop = g d.desktop) (items : List OwnedDesktop) :
    (updateItems id f items).map (·.desktop) = updateDesktop id g (items.map (·.desktop)) := by
  induction items with
  | nil => rfl
  | cons d items ih =>
    unfold updateItems updateDesktop
    simp only [List.map_cons]
    split
    · rw [List.map_cons, hf]
    · rw [List.map_cons, ih]

theorem toTarget_findDesktop (id : GUID) :
    Uniwm.findDesktop t.toTarget.items id = (t.findDesktop id).map (·.desktop) := by
  rw [Uniwm.findDesktop, findDesktop, toTarget, List.find?_map]
  rfl

theorem toTarget_refreshExisting (d : OwnedDesktop) :
    (t.refreshExisting d e vd ordinal).1 =
        (Uniwm.refreshExisting t.toTarget d.desktop e.element vd ordinal).1 ∧
      (t.refreshExisting d e vd ordinal).2.toTarget =
        (Uniwm.refreshExisting t.toTarget d.desktop e.element vd ordinal).2 := by
  cases hname : Uniwm.fetchName e.element ordinal with
  | none =>
    simp only [refreshExisting, desktopUpdate, fetchName, Uniwm.refreshExisting, hname]
    exact ⟨rfl, rfl⟩
  | some name =>
    simp only [refreshExisting, desktopUpdate, fetchName, Uniwm.refreshExisting, hname]
    refine ⟨rfl, ?_⟩
    -- both release the interface that the record had
    show Target.mk _ _ = Target.mk _ _
    congr 1
    exact map_updateItems (fun d => rfl) t.items

theorem toTarget_refreshNew :
    (t.refreshNew e vd ordinal).1 = (Uniwm.refreshNew t.toTarget e.element vd ordinal).1 ∧
      (t.refreshNew e vd ordinal).2.toTarget =
        (Uniwm.refreshNew t.toTarget e.element vd ordinal).2 := by
  cases haddr : e.element.addr with
  | none =>
    simp only [refreshNew, wrapDesktop, Uniwm.refreshNew, Uniwm.wrapDesktop, haddr]
    exact ⟨trivial, rfl⟩
  | some addr =>
    cases hname : Uniwm.fetchName e.element ordinal with
    | none =>
      simp only [refreshNew, wrapDesktop, fetchName, Uniwm.refreshNew, Uniwm.wrapDesktop, haddr,
        hname]
      exact ⟨trivial, rfl⟩
    | some name =>
      simp only [refreshNew, wrapDesktop, fetchName, Uniwm.refreshNew, Uniwm.wrapDesktop, haddr,
        hname]
      cases hgrown : e.element.grown with
      | false => exact ⟨rfl, rfl⟩
      | true => exact ⟨rfl, by simp [toTarget]⟩

theorem toTarget_refreshFrom (elements : List OwnedElement) :
    (t.refreshFrom ordinal elements).1 =
        (Uniwm.refreshFrom t.toTarget ordinal (elements.map (·.element))).1 ∧
      (t.refreshFrom ordinal elements).2.toTarget =
        (Uniwm.refreshFrom t.toTarget ordinal (elements.map (·.element))).2 := by
  induction elements generalizing t ordinal with
  | nil => exact ⟨rfl, rfl⟩
  | cons e elements ih =>
    rw [List.map_cons]
    cases hvd : e.element.vd with
    | none =>
      simp only [refreshFrom, Uniwm.refreshFrom, hvd]
      exact ih ..
    | some vd =>
      simp only [refreshFrom, Uniwm.refreshFrom, hvd, toTarget_findDesktop]
      -- taking the reference into the account changes nothing that is looked at
      have htaken : ({ t with ifaces := t.ifaces.take vd } : OwnedTarget).toTarget =
          t.toTarget := rfl
      have hfind : ({ t with ifaces := t.ifaces.take vd } : OwnedTarget).findDesktop
          e.element.id = t.findDesktop e.element.id := rfl
      rw [hfind]
      generalize { t with ifaces := t.ifaces.take vd } = t' at htaken
      rw [← htaken]
      cases t.findDesktop e.element.id with
      | some d =>
        obtain ⟨herror, htarget⟩ := t'.toTarget_refreshExisting e vd ordinal d
        simp only [Option.map_some, herror, ← htarget]
        split
        · exact ⟨herror, htarget⟩
        · exact ih ..
      | none =>
        obtain ⟨herror, htarget⟩ := t'.toTarget_refreshNew e vd ordinal
        simp only [Option.map_none, herror, ← htarget]
        split
        · exact ⟨herror, htarget⟩
        · exact ih ..

/-- **The same refresh.** -/
theorem toTarget_refresh (arr : Option (Ptr × List OwnedElement)) :
    (t.refresh arr).1 = (Uniwm.refresh t.toTarget (arr.map fun a => a.2.map (·.element))).1 ∧
      (t.refresh arr).2.toTarget =
        (Uniwm.refresh t.toTarget (arr.map fun a => a.2.map (·.element))).2 := by
  cases arr with
  | none => exact ⟨rfl, rfl⟩
  | some arr =>
    have hreset : ({ t with arrays := t.arrays.take arr.1 } : OwnedTarget).resetCache.toTarget =
        Uniwm.resetCache t.toTarget := by
      simp [resetCache, Uniwm.resetCache, toTarget]
    obtain ⟨herror, htarget⟩ := toTarget_refreshFrom
      ({ t with arrays := t.arrays.take arr.1 } : OwnedTarget).resetCache 0 arr.2
    rw [hreset] at herror htarget
    exact ⟨herror, htarget⟩

end Erasure

/-! ## The accounts -/

/-- The records `ds` and the `loose` references are all that has not been given back, and of
the arrays just those given. -/
structure Accounts (t : OwnedTarget) (ds : List OwnedDesktop) (loose : List IVirtualDesktop)
    (arrays : List Ptr) : Prop where
  ifaces : t.ifaces.Balanced (ds.map (·.desktop.iface) ++ loose)
  names : t.names.Balanced (ds.map (·.nameAt))
  records : t.records.Balanced (ds.map (·.desktop.addr))
  arrays : t.arrays.Balanced arrays

section Accounts

variable {t : OwnedTarget} {ds : List OwnedDesktop} {d : OwnedDesktop} {e : OwnedElement}
  {vd : IVirtualDesktop} {arrays : List Ptr}

/-- Who has which record does not matter, nor do the flags. -/
theorem Accounts.congr {ds' : List OwnedDesktop} (h : Accounts t ds [] arrays)
    (hperm : ds'.Perm ds) : Accounts t ds' [] arrays where
  ifaces := h.ifaces.congr (by simpa using hperm.map (·.desktop.iface))
  names := h.names.congr (hperm.map _)
  records := h.records.congr (hperm.map _)
  arrays := h.arrays

theorem Accounts.release (h : Accounts t ds [vd] arrays) :
    Accounts (t.release vd) ds [] arrays := by
  refine ⟨?_, h.names, h.records, h.arrays⟩
  rw [List.append_nil]
  exact h.ifaces.giveBack

/-- `destroy_desktop` gives back what a record holds, and the record. -/
theorem Accounts.destroy (h : Accounts t (d :: ds) [] arrays) :
    Accounts (t.destroyDesktop d) ds [] arrays :=
  ⟨h.ifaces.giveBack_cons, h.names.giveBack_cons, h.records.giveBack_cons, h.arrays⟩

/-- `fetch_name` hands out one name, or none. -/
theorem fetchName_cases (t : OwnedTarget) (e : OwnedElement) (ordinal : Nat) :
    ((t.fetchName e ordinal).1 = none ∧ (t.fetchName e ordinal).2 = t) ∨
      ∃ name, (t.fetchName e ordinal).1 = some name ∧
        (t.fetchName e ordinal).2 = { t with names := t.names.take e.nameAt } := by
  unfold fetchName
  split
  · exact Or.inl ⟨rfl, rfl⟩
  · next name _ => exact Or.inr ⟨name, rfl, rfl⟩

/-- `wrap_desktop` makes a record that holds the loose reference, or leaves it loose. -/
theorem Accounts.wrap (h : Accounts t ds [vd] arrays) (ordinal : Nat) :
    let out := t.wrapDesktop e vd ordinal
    out.2.items = t.items ∧
      ((out.1 = none ∧ Accounts out.2 ds [vd] arrays) ∨
        ∃ d, out.1 = some d ∧ Accounts out.2 (d :: ds) [] arrays) := by
  intro out
  unfold out wrapDesktop
  cases haddr : e.element.addr with
  | none => exact ⟨rfl, Or.inl ⟨rfl, h⟩⟩
  | some addr =>
    rcases fetchName_cases { t with records := t.records.take addr } e ordinal with
      ⟨hnone, hsame⟩ | ⟨name, hsome, htaken⟩
    -- without a name the record goes at once
    · simp only [hnone, hsame]
      exact ⟨trivial, Or.inl ⟨trivial, h.ifaces, h.names, h.records.pass addr, h.arrays⟩⟩
    · simp only [hsome, htaken]
      refine ⟨trivial, Or.inr ⟨_, rfl, ?_, ?_, ?_, h.arrays⟩⟩
      · exact h.ifaces.congr (by simpa using (List.perm_append_singleton ..).symm)
      · exact (h.names.take e.nameAt).congr (List.perm_append_singleton ..).symm
      · exact (h.records.take addr).congr (List.perm_append_singleton ..).symm

/-- The record found is the one updated. -/
theorem updateItems_split {id : GUID} (hfind : t.findDesktop id = some d)
    (f : OwnedDesktop → OwnedDesktop) :
    ∃ left right, t.items = left ++ d :: right ∧
      updateItems id f t.items = left ++ f d :: right := by
  unfold findDesktop at hfind
  generalize t.items = items at hfind ⊢
  induction items with
  | nil => cases hfind
  | cons d' items ih =>
    rw [List.find?_cons] at hfind
    unfold updateItems
    by_cases hid : d'.desktop.id = id
    · rw [decide_eq_true hid] at hfind
      cases hfind
      exact ⟨[], items, rfl, by rw [if_pos hid, List.nil_append]⟩
    · rw [decide_eq_false hid] at hfind
      obtain ⟨left, right, hitems, hupdated⟩ := ih hfind
      exact ⟨d' :: left, right, by rw [hitems, List.cons_append], by
        rw [if_neg hid, hupdated, List.cons_append]⟩

/-- An element that the cache has: the reference goes into the record and the old one is
released, or the reference is. -/
theorem Accounts.existing (h : Accounts t t.items [vd] arrays)
    (hfind : t.findDesktop e.element.id = some d) (ordinal : Nat) :
    let out := t.refreshExisting d e vd ordinal
    Accounts out.2 out.2.items [] arrays := by
  intro out
  unfold out refreshExisting desktopUpdate
  rcases fetchName_cases t e ordinal with ⟨hnone, hsame⟩ | ⟨name, hsome, htaken⟩
  · simp only [hnone, hsame]
    exact h.release
  -- the record gives up its interface and its name, and takes the new ones
  · simp only [hsome, htaken]
    obtain ⟨left, right, hitems, hupdated⟩ := updateItems_split hfind fun d =>
      ⟨{ d.desktop with iface := vd, name := name, valid := true }, e.nameAt⟩
    have hifaces := h.ifaces
    have hnames := h.names.take e.nameAt
    have hrecords := h.records
    simp only [hitems, List.map_append, List.map_cons] at hifaces hnames hrecords
    refine ⟨?_, ?_, ?_, h.arrays⟩
    · show (t.ifaces.giveBack d.desktop.iface).Balanced
        ((updateItems _ _ t.items).map (·.desktop.iface) ++ [])
      rw [hupdated, List.append_nil, List.map_append, List.map_cons]
      exact hifaces.replace
    · show ((t.names.take e.nameAt).giveBack d.nameAt).Balanced
        ((updateItems _ _ t.items).map (·.nameAt))
      rw [hupdated, List.map_append, List.map_cons]
      exact hnames.replace
    · show t.records.Balanced ((updateItems _ _ t.items).map (·.desktop.addr))
      rw [hupdated, List.map_append, List.map_cons]
      exact hrecords

/-- An element that the cache lacks: the reference goes into a record of the cache, or it is
released. -/
theorem Accounts.new (h : Accounts t t.items [vd] arrays) (ordinal : Nat) :
    let out := t.refreshNew e vd ordinal
    Accounts out.2 out.2.items [] arrays := by
  intro out
  unfold out refreshNew
  obtain ⟨hitems, ⟨hnone, hloose⟩ | ⟨d, hsome, hheld⟩⟩ := h.wrap (e := e) ordinal
  · simp only [hnone]
    rw [← hitems] at hloose
    exact hloose.release
  -- the record is appended, or destroyed with all that it holds
  · rw [← hitems] at hheld
    simp only [hsome]
    cases e.element.grown with
    | true =>
      have hpushed := hheld.congr (List.perm_append_singleton ..)
      exact ⟨hpushed.ifaces, hpushed.names, hpushed.records, hpushed.arrays⟩
    | false => exact hheld.destroy

end Accounts

/-! ## Refreshes -/

/-- Each element keeps the accounts, so the loop does, wherever it stops. -/
theorem Accounts.refreshFrom {t : OwnedTarget} {arrays : List Ptr}
    (h : Accounts t t.items [] arrays) (ordinal : Nat) (elements : List OwnedElement) :
    let out := t.refreshFrom ordinal elements
    Accounts out.2 out.2.items [] arrays := by
  induction elements generalizing t ordinal with
  | nil => exact h
  | cons e elements ih =>
    intro out
    cases hvd : e.element.vd with
    | none =>
      simp only [out, OwnedTarget.refreshFrom, hvd]
      exact ih h (ordinal + 1)
    | some vd =>
      simp only [out, OwnedTarget.refreshFrom, hvd]
      -- `GetAt` hands out one reference, and nothing holds it yet
      have htaken : Accounts { t with ifaces := t.ifaces.take vd } t.items [vd] arrays := by
        have hifaces := h.ifaces.take vd
        rw [List.append_nil] at hifaces
        exact ⟨hifaces, h.names, h.records, h.arrays⟩
      generalize ht : { t with ifaces := t.ifaces.take vd } = t' at htaken ⊢
      have hitems : t.items = t'.items := by rw [← ht]
      rw [hitems] at htaken
      cases hfind : t'.findDesktop e.element.id with
      | some d =>
        have hdone := htaken.existing hfind ordinal
        simp only
        split
        · exact hdone
        · exact ih hdone (ordinal + 1)
      | none =>
        have hdone := htaken.new (e := e) ordinal
        simp only
        split
        · exact hdone
        · exact ih hdone (ordinal + 1)

/-- A refresh releases its array and nothing else stays loose. -/
theorem Accounts.refresh {t : OwnedTarget} (h : Accounts t t.items [] [])
    (arr : Option (Ptr × List OwnedElement)) :
    Accounts (t.refresh arr).2 (t.refresh arr).2.items [] [] := by
  cases arr with
  | none => exact h
  | some arr =>
    obtain ⟨arr, elements⟩ := arr
    have hstart : Accounts ({ t with arrays := t.arrays.take arr } : OwnedTarget).resetCache
        ({ t with arrays := t.arrays.take arr } : OwnedTarget).resetCache.items [] [arr] := by
      refine ⟨?_, ?_, ?_, h.arrays.take arr⟩
      · simpa [resetCache, Function.comp_def] using h.ifaces
      · simpa [resetCache, Function.comp_def] using h.names
      · simpa [resetCache, Function.comp_def] using h.records
    have hloop := hstart.refreshFrom 0 elements
    exact ⟨hloop.ifaces, hloop.names, hloop.records, hloop.arrays.giveBack_cons⟩

/-- `win_destroy` destroys every record. -/
theorem Accounts.winDestroy {t : OwnedTarget} (h : Accounts t t.items [] []) :
    Accounts t.winDestroy [] [] [] := by
  have hall : ∀ (ds : List OwnedDesktop) (t : OwnedTarget), Accounts t ds [] [] →
      Accounts (ds.foldl destroyDesktop t) [] [] [] := by
    intro ds
    induction ds with
    | nil => exact fun t h => h
    | cons d ds ih => exact fun t h => ih _ h.destroy
  have hdone := hall t.items t h
  exact ⟨hdone.ifaces, hdone.names, hdone.records, hdone.arrays⟩

/-- The cache with its accounts as a machine that reads what `GetDesktops` gives. -/
def step (t : OwnedTarget) (arr : Option (Ptr × List OwnedElement)) : OwnedTarget × WMError :=
  ((t.refresh arr).2, (t.refresh arr).1)

theorem accounts_run (arrs : List (Option (Ptr × List OwnedElement))) :
    Accounts (final step init arrs) (final step init arrs).items [] [] := by
  refine final_induction step (fun t => Accounts t t.items [] []) (fun _ => True)
    (fun t arr _ h => h.refresh arr) ?_ (fun _ _ => trivial)
  exact ⟨Account.balanced_empty, Account.balanced_empty, Account.balanced_empty,
    Account.balanced_empty⟩

end OwnedTarget

/-- The accounts apart, a run of refreshes is one of the cache. -/
theorem toTarget_run (arrs : List (Option (Ptr × List OwnedElement))) :
    (final OwnedTarget.step .init arrs).toTarget =
      final Target.step .init (arrs.map fun arr => arr.map fun a => a.2.map (·.element)) := by
  have hrun : ∀ t : OwnedTarget, (final OwnedTarget.step t arrs).toTarget =
      final Target.step t.toTarget
        (arrs.map fun arr => arr.map fun a => a.2.map (·.element)) := by
    induction arrs with
    | nil => exact fun t => rfl
    | cons arr arrs ih =>
      intro t
      rw [final_cons, List.map_cons, final_cons, ih]
      exact congrArg (final Target.step · _) (t.toTarget_refresh arr).2
  exact hrun .init

/-- **The cache owns what it was handed.** After any refreshes, whatever failed in them: each
reference from `GetAt`, each name and each record is held by an item or was given back, as
often as it was handed out; and every array was released as often as it was handed out. After
`win_destroy` nothing is held, and all of it was given back as often as it was handed out. -/
theorem refresh_owns (arrs : List (Option (Ptr × List OwnedElement))) :
    let t := final OwnedTarget.step .init arrs
    let dead := t.winDestroy
    t.ifaces.Balanced (t.items.map (·.desktop.iface)) ∧
      t.names.Balanced (t.items.map (·.nameAt)) ∧
      t.records.Balanced (t.items.map (·.desktop.addr)) ∧
      t.arrays.returned.Perm t.arrays.taken ∧
      dead.ifaces.returned.Perm dead.ifaces.taken ∧
      dead.names.returned.Perm dead.names.taken ∧
      dead.records.returned.Perm dead.records.taken ∧
      dead.arrays.returned.Perm dead.arrays.taken := by
  intro t dead
  have hrun := OwnedTarget.accounts_run arrs
  have hdead := hrun.winDestroy
  have hifaces := hrun.ifaces
  rw [List.append_nil] at hifaces
  exact ⟨hifaces, hrun.names, hrun.records, hrun.arrays.settled, hdead.ifaces.settled,
    hdead.names.settled, hdead.records.settled, hdead.arrays.settled⟩

end Uniwm
