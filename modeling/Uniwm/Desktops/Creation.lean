import Uniwm.Desktops.Refresh
import Uniwm.Model.Creation

/-!
# uniwm — desktops left behind

The desktop is made first and nothing takes it back, so a creation that fails after that leaves
it with the OS. `create_atomic_iff` says when none is left behind, by what can fail after
the creation: the enumeration, the memory for the records (`Affords`), and finding the new
desktop among them.
-/

namespace Uniwm

open Base

/-! ## One `GetID` or two -/

/-- An element whose two reads agree. -/
def DesktopElement.read (e : DesktopElement) : ReadElement := ⟨e, e.id⟩

/-- On such elements the loop is the one of `refresh`. -/
theorem refreshReadFrom_read (t : Target) (ordinal : Nat) (elements : List DesktopElement) :
    refreshReadFrom t ordinal (elements.map DesktopElement.read) =
      refreshFrom t ordinal elements := by
  induction elements generalizing t ordinal with
  | nil => rfl
  | cons e elements ih =>
    rw [List.map_cons]
    cases hvd : e.vd with
    | none => simp only [refreshReadFrom, refreshFrom, DesktopElement.read, hvd, ih]
    | some vd =>
      cases hfind : findDesktop t.items e.id with
      | none =>
        have hsame : { e with vd := some vd, id := e.id } = e := by rw [← hvd]
        simp only [refreshReadFrom, refreshFrom, DesktopElement.read, hvd, hfind, hsame, ih]
      | some existing =>
        simp only [refreshReadFrom, refreshFrom, DesktopElement.read, hvd, hfind, ih]

theorem refreshRead_read (t : Target) (arr : Option (List DesktopElement)) :
    refreshRead t (arr.map (·.map DesktopElement.read)) = refresh t arr := by
  cases arr with
  | none => rfl
  | some elements => exact refreshReadFrom_read (resetCache t) 0 elements

/-- And the creation is `win_vdesk_create`. -/
theorem wmVdesktopCreate_read (conv : Conversions) (desktops : List OsDesktop) (t : Target)
    (name : String) (created : Option GUID) (made named : Bool)
    (arr : Option (List DesktopElement)) :
    let result := wmVdesktopCreate conv desktops t name
      ⟨created, made, named, true, arr.map (·.map DesktopElement.read)⟩
    (result.out, result.target) = winVdeskCreate t created arr := by
  cases created with
  | none => rfl
  | some id =>
    simp only [wmVdesktopCreate, winVdeskCreate, refreshRead_read, if_true]
    split
    · rfl
    · cases findDesktop (refresh t arr).2.items id <;> rfl

/-! ## One element -/

/-- What the loop does with an element that it can read. -/
def refreshElement (t : Target) (e : ReadElement) (vd : IVirtualDesktop) (ordinal : Nat) :
    WMError × Target :=
  match findDesktop t.items e.id with
  | some existing => refreshExisting t existing e.toDesktopElement vd ordinal
  | none => refreshNew t { e.toDesktopElement with id := e.wrapped } vd ordinal

/-- The loop does its first element, and goes on if that succeeds. -/
theorem refreshReadFrom_cons {e : ReadElement} {vd : IVirtualDesktop} (hvd : e.vd = some vd)
    (t : Target) (ordinal : Nat) (elements : List ReadElement) :
    refreshReadFrom t ordinal (e :: elements) =
      if (refreshElement t e vd ordinal).1 ≠ .ok then refreshElement t e vd ordinal
      else refreshReadFrom (refreshElement t e vd ordinal).2 (ordinal + 1) elements := by
  obtain ⟨⟨_, id, name, nameGrown, addr, grown⟩, wrapped⟩ := e
  cases hvd
  rfl

theorem refreshReadFrom_cons_none {e : ReadElement} (hvd : e.vd = none) (t : Target)
    (ordinal : Nat) (elements : List ReadElement) :
    refreshReadFrom t ordinal (e :: elements) = refreshReadFrom t (ordinal + 1) elements := by
  obtain ⟨⟨_, id, name, nameGrown, addr, grown⟩, wrapped⟩ := e
  cases hvd
  rfl

/-! ## When a refresh succeeds -/

/-- The ids that the cache has after an element, if the memory suffices. -/
def knownWith (ids : List GUID) (e : ReadElement) : List GUID :=
  if e.vd.isSome ∧ e.id ∉ ids then ids ++ [e.wrapped] else ids

def known (ids : List GUID) (elements : List ReadElement) : List GUID :=
  elements.foldl knownWith ids

/-- There is memory for the name of each element that can be read, and for the record and the
slot of each that the cache lacks when it comes to it. -/
def Affords (ids : List GUID) (elements : List ReadElement) : Prop :=
  ∀ before e after, elements = before ++ e :: after → e.vd.isSome = true →
    e.nameGrown = true ∧ (e.id ∉ known ids before → e.addr.isSome = true ∧ e.grown = true)

section Refresh

variable {ids : List GUID} {e : ReadElement} {elements : List ReadElement}

theorem affords_nil : Affords ids [] := by
  intro before e after h
  simp at h

theorem affords_cons :
    Affords ids (e :: elements) ↔
      (e.vd.isSome = true →
        e.nameGrown = true ∧ (e.id ∉ ids → e.addr.isSome = true ∧ e.grown = true)) ∧
      Affords (knownWith ids e) elements := by
  constructor
  · intro h
    refine ⟨h [] e elements rfl, ?_⟩
    intro before e' after hsplit
    exact h (e :: before) e' after (by rw [hsplit, List.cons_append])
  · rintro ⟨hhead, htail⟩ before e' after hsplit
    cases before with
    | nil =>
      rw [List.nil_append, List.cons.injEq] at hsplit
      obtain ⟨rfl, rfl⟩ := hsplit
      exact hhead
    | cons first before =>
      rw [List.cons_append, List.cons.injEq] at hsplit
      obtain ⟨rfl, hsplit⟩ := hsplit
      exact htail before e' after hsplit

/-- An update of a record that the cache has needs memory for the name. -/
theorem refreshExisting_ok_iff (t : Target) (existing : VDesktop) (e : DesktopElement)
    (vd : IVirtualDesktop) (ordinal : Nat) :
    (refreshExisting t existing e vd ordinal).1 = .ok ↔ e.nameGrown = true := by
  rw [refreshExisting, fetchName]
  cases e.nameGrown <;> simp

/-- A new record needs memory for all three. -/
theorem refreshNew_ok_iff (t : Target) (e : DesktopElement) (vd : IVirtualDesktop)
    (ordinal : Nat) :
    (refreshNew t e vd ordinal).1 = .ok ↔
      e.nameGrown = true ∧ e.addr.isSome = true ∧ e.grown = true := by
  rw [refreshNew, wrapDesktop, fetchName]
  cases e.nameGrown <;> cases e.addr <;> cases e.grown <;> simp

/-- There is memory for what an element needs, and then the cache has the ids that it is to
have. -/
theorem refreshElement_ok_iff (t : Target) {vd : IVirtualDesktop} (hvd : e.vd = some vd)
    (ordinal : Nat) :
    ((refreshElement t e vd ordinal).1 = .ok ↔
        e.nameGrown = true ∧ (e.id ∉ t.ids → e.addr.isSome = true ∧ e.grown = true)) ∧
      ((refreshElement t e vd ordinal).1 = .ok →
        (refreshElement t e vd ordinal).2.ids = knownWith t.ids e) := by
  rw [refreshElement]
  cases hfind : findDesktop t.items e.id with
  | some existing =>
    have hmem := mem_ids_of_findDesktop hfind
    have hknown : knownWith t.ids e = t.ids := by simp [knownWith, hmem]
    rw [refreshExisting_ok_iff, hknown]
    refine ⟨by simp [hmem], fun hok => ?_⟩
    rcases refreshExisting_items t e.toDesktopElement vd existing ordinal with
      ⟨-, hitems⟩ | ⟨hfail, -⟩
    · rw [Target.ids, hitems]
      exact updateDesktop_map (·.id) (by intros; rfl) t.items
    · rw [← refreshExisting_ok_iff t existing e.toDesktopElement vd ordinal] at hok
      exact absurd hok hfail
  | none =>
    have hmem : e.id ∉ t.ids := findDesktop_eq_none_iff.mp hfind
    have hknown : knownWith t.ids e = t.ids ++ [e.wrapped] := by simp [knownWith, hvd, hmem]
    rw [hknown]
    refine ⟨by rw [refreshNew_ok_iff]; simp [hmem], fun hok => ?_⟩
    rcases refreshNew_items t { e.toDesktopElement with id := e.wrapped } vd ordinal with
      ⟨-, addr, -, hitems⟩ | ⟨hfail, -⟩
    · rw [Target.ids, hitems]
      simp [Target.ids, refilled]
    · exact absurd hok hfail

/-- The loop succeeds when there is memory for all that it does, and then the cache has the
ids that it is to have. -/
theorem refreshReadFrom_ok_iff (t : Target) (ordinal : Nat) (elements : List ReadElement) :
    ((refreshReadFrom t ordinal elements).1 = .ok ↔ Affords t.ids elements) ∧
      ((refreshReadFrom t ordinal elements).1 = .ok →
        (refreshReadFrom t ordinal elements).2.ids = known t.ids elements) := by
  induction elements generalizing t ordinal with
  | nil => exact ⟨iff_of_true rfl affords_nil, fun _ => rfl⟩
  | cons e elements ih =>
    rw [affords_cons, known, List.foldl_cons, ← known]
    cases hvd : e.vd with
    | none =>
      have hknown : knownWith t.ids e = t.ids := by simp [knownWith, hvd]
      rw [hknown, refreshReadFrom_cons_none hvd]
      simpa using ih t (ordinal + 1)
    | some vd =>
      obtain ⟨hmemory, hids⟩ := refreshElement_ok_iff t hvd ordinal
      rw [refreshReadFrom_cons hvd, ← hmemory]
      simp only [Option.isSome_some, forall_const]
      by_cases hok : (refreshElement t e vd ordinal).1 = .ok
      · rw [if_neg (not_not.mpr hok), ← hids hok, iff_true_intro hok, true_and]
        exact ih _ (ordinal + 1)
      · rw [if_pos hok]
        exact ⟨iff_of_false hok fun h => hok h.1, fun h => absurd h hok⟩

end Refresh

/-! ## What a failed creation leaves -/

theorem ids_resetCache (t : Target) : (resetCache t).ids = t.ids := by
  simp [resetCache, Target.ids]

section Create

variable (conv : Conversions) (desktops : List OsDesktop) (t : Target) (name : String)

/-- What becomes of a call that made a desktop. -/
theorem wmVdesktopCreate_of_created {created : GUID} {o : CreateOutcome}
    (hcreated : o.created = some created) :
    let result := wmVdesktopCreate conv desktops t name o
    let refreshed := refreshRead t o.arr
    (∃ named, result.desktops = desktops ++ [⟨created, named⟩]) ∧
      (result.error = .ok ↔
        refreshed.1 = .ok ∧ (if o.idRead then created else 0) ∈ refreshed.2.ids) ∧
      (result.error ≠ .ok → result.out = none) := by
  intro result refreshed
  unfold result
  rw [wmVdesktopCreate, hcreated]
  simp only
  generalize (if o.idRead then created else 0) = id
  by_cases hok : refreshed.1 = .ok
  · rw [if_neg (not_not.mpr hok)]
    cases hfind : findDesktop refreshed.2.items id with
    | none =>
      have hmem : id ∉ refreshed.2.ids := findDesktop_eq_none_iff.mp hfind
      exact ⟨⟨_, rfl⟩, iff_of_false nofun fun h => hmem h.2, fun _ => rfl⟩
    | some d =>
      have hmem := mem_ids_of_findDesktop hfind
      exact ⟨⟨_, rfl⟩, iff_of_true rfl ⟨hok, hmem⟩, fun h => absurd rfl h⟩
  · rw [if_pos hok]
    exact ⟨⟨_, rfl⟩, iff_of_false nofun fun h => hok h.1, fun _ => rfl⟩

/-- The refresh succeeds and has the new desktop: in terms of the enumeration. -/
theorem refreshRead_finds_iff (arr : Option (List ReadElement)) (id : GUID) :
    (refreshRead t arr).1 = .ok ∧ id ∈ (refreshRead t arr).2.ids ↔
      ∃ elements, arr = some elements ∧ Affords t.ids elements ∧ id ∈ known t.ids elements := by
  cases arr with
  | none =>
    refine iff_of_false (fun h => absurd h.1 nofun) ?_
    rintro ⟨_, h, -⟩
    exact absurd h nofun
  | some elements =>
    obtain ⟨hok, hids⟩ := refreshReadFrom_ok_iff (resetCache t) 0 elements
    rw [ids_resetCache] at hok hids
    constructor
    · rintro ⟨hrefresh, hmem⟩
      rw [refreshRead, hids hrefresh] at hmem
      exact ⟨elements, rfl, hok.mp hrefresh, hmem⟩
    · rintro ⟨_, helements, haffords, hmem⟩
      cases helements
      have hrefresh := hok.mpr haffords
      exact ⟨hrefresh, by rwa [refreshRead, hids hrefresh]⟩

/-- **Failed creations.** An error leaves the desktops of the OS and `*out` as they were exactly
if `CreateDesktop` made none, or nothing can fail after it: the desktops are enumerated, there
is memory for their records, and the id read of the new one is among them. -/
theorem create_atomic_iff (o : CreateOutcome) :
    let result := wmVdesktopCreate conv desktops t name o
    (result.error ≠ .ok → result.desktops = desktops ∧ result.out = none) ↔
      o.created = none ∨ ∃ created elements, o.created = some created ∧ o.arr = some elements ∧
        Affords t.ids elements ∧ (if o.idRead then created else 0) ∈ known t.ids elements := by
  intro result
  cases hcreated : o.created with
  | none =>
    refine iff_of_true ?_ (Or.inl rfl)
    intro _
    unfold result
    rw [wmVdesktopCreate, hcreated]
    exact ⟨rfl, rfl⟩
  | some created =>
    obtain ⟨⟨named, hdesktops⟩, hok, hout⟩ :=
      wmVdesktopCreate_of_created conv desktops t name hcreated
    rw [refreshRead_finds_iff] at hok
    have hcondition : (some created = none ∨ ∃ created' elements, some created = some created' ∧
        o.arr = some elements ∧ Affords t.ids elements ∧
        (if o.idRead then created' else 0) ∈ known t.ids elements) ↔ result.error = .ok := by
      rw [hok]
      constructor
      · rintro (hnone | ⟨_, elements, hsome, hrest⟩)
        · exact absurd hnone nofun
        · cases hsome
          exact ⟨elements, hrest⟩
      · rintro ⟨elements, hrest⟩
        exact Or.inr ⟨created, elements, rfl, hrest⟩
    rw [hcondition]
    constructor
    · intro hatomic
      by_contra herror
      have hlen := congrArg List.length ((hatomic herror).1)
      rw [hdesktops, List.length_append, List.length_singleton] at hlen
      omega
    · intro herror hne
      exact absurd herror hne

end Create

/-- A desktop is made, but the enumeration fails: an error, and the desktop is there. -/
theorem create_leaves_desktop :
    ¬ ((wmVdesktopCreate .standard [] .init "work" ⟨some 2, true, true, true, none⟩).error ≠ .ok →
        (wmVdesktopCreate .standard [] .init "work"
          ⟨some 2, true, true, true, none⟩).desktops = [] ∧
        (wmVdesktopCreate .standard [] .init "work"
          ⟨some 2, true, true, true, none⟩).out = none) := by
  intro h
  have hempty := (h nofun).1
  exact absurd (congrArg List.length hempty) (by decide)

end Uniwm
