import Mathlib.Data.List.TakeWhile
import Uniwm.Desktops.Creation

/-!
# uniwm — names of new desktops

A name reaches the OS when it fits 128 units of UTF-16 and comes back when it fits 127 bytes of
UTF-8. The second is the narrower door for every text (`utf16_length_le`), and neither failure
is reported: a desktop whose name is lost on the way is called by its place in the enumeration,
and its creation succeeds.

What the creation returns is the record under the id read of the new desktop, filled last from
the element that `FilledFrom` tells. Where every `GetID` succeeds this element is the new desktop
(`FilledFrom.own`). Where it fails for the new desktop, and for another one when its record is
made, both have the id zero, and the other desktop is returned.

`create_name_iff` says for every name and every cache when the desktop returned has the name.
-/

namespace Uniwm

open Base

/-! ## There and back -/

section RoundTrip

variable (conv : Conversions) {name : String}

/-- What is read back is never longer than the buffer. -/
theorem utf8ByteSize_readName {hs : HString} {s : String} (h : readName conv hs = some s) :
    s.utf8ByteSize ≤ nameCap - 1 := by
  rw [readName, Option.map_eq_some_iff] at h
  obtain ⟨read, hread, rfl⟩ := h
  rw [hstringToUtf8] at hread
  split at hread
  · exact absurd hread nofun
  · split at hread
    · next hfits =>
      rw [← Option.some.inj hread]
      exact Nat.le_trans (utf8ByteSize_takeWhile_le _ _) hfits.2
    · exact absurd hread nofun

theorem upToNul_eq (h : ∀ c ∈ name.toList, c ≠ Char.ofNat 0) : upToNul name = name := by
  have htake : name.toList.takeWhile (· ≠ Char.ofNat 0) = name.toList := by
    rw [List.takeWhile_eq_self_iff]
    intro c hc
    exact decide_eq_true (h c hc)
  rw [upToNul, htake, String.ofList_toList]

/-- Without a string to hand over the desktop is not named. -/
theorem readName_not_made : readName conv (nameSet conv name false) = none := by
  have herror : ∃ e, utf8ToHstring conv name false = .error e := by
    rw [utf8ToHstring]
    simp only [Bool.false_eq_true, if_false, ite_self]
    split
    · exact ⟨.invalidArgument, rfl⟩
    · exact ⟨.unknown, rfl⟩
  obtain ⟨e, herror⟩ := herror
  rw [nameSet, herror]
  rfl

/-- A name of at most 127 bytes makes the round trip. -/
theorem readName_made (hne : name ≠ "") (hnul : ∀ c ∈ name.toList, c ≠ Char.ofNat 0)
    (hfits : name.utf8ByteSize ≤ nameCap - 1) :
    readName conv (nameSet conv name true) = some name := by
  have hpos : 0 < name.utf8ByteSize := by
    rw [Nat.pos_iff_ne_zero, ne_eq, String.utf8ByteSize_eq_zero_iff]
    exact hne
  have hcap : nameCap = 128 := rfl
  have hlen : (BitVec.ofNat 32 name.utf8ByteSize).toInt = name.utf8ByteSize := by
    have hnat : (BitVec.ofNat 32 name.utf8ByteSize).toNat = name.utf8ByteSize := by
      rw [BitVec.toNat_ofNat]
      omega
    rw [BitVec.toInt_eq_toNat_of_lt (by omega), hnat]
  have hwide : conv.toWide (name.toByteArray.extract 0 name.utf8ByteSize) = utf16 name.toList := by
    rw [← String.size_toByteArray, ByteArray.extract_zero_size, conv.toWide_utf8]
  have hunits : (utf16 name.toList).length ≤ nameCap := by
    have := utf16_length_le name
    omega
  have hsome : utf16 name.toList ≠ [] := by
    intro hnil
    have hback := conv.toUtf8_utf16 name
    rw [hnil, ← show utf16 "".toList = [] from rfl, conv.toUtf8_utf16] at hback
    exact hne hback.symm
  have hset : nameSet conv name true = utf16 name.toList := by
    rw [nameSet, utf8ToHstring, hlen, if_neg (by omega), Int.toNat_natCast, hwide,
      if_pos ⟨List.length_pos_iff.mpr hsome, hunits⟩, if_pos rfl]
  rw [hset, readName, hstringToUtf8, if_neg hsome, conv.toUtf8_utf16, if_pos ⟨hpos, hfits⟩,
    Option.map_some, upToNul_eq hnul]

end RoundTrip

/-! ## The name of a new record -/

/-- The name of a desktop that has none, by its place. -/
def defaultName (k : Nat) : String := "Desktop " ++ toString (k + 1)

/-- The values of a `UINT`, with which the array counts. -/
abbrev uintValues : Nat := 4294967296

/-- Such a name fits the buffer. -/
theorem utf8ByteSize_defaultName {k : Nat} (hk : k < uintValues) :
    (defaultName k).utf8ByteSize ≤ nameCap - 1 := by
  have hdigits : (k + 1).repr.length ≤ 10 := by
    rw [Nat.length_repr_le_iff (by decide)]
    exact Nat.lt_of_le_of_lt hk (by decide)
  have hsize := utf8ByteSize_le (k + 1).repr
  have hprefix : "Desktop ".utf8ByteSize = 8 := by decide
  rw [defaultName, Nat.toString_eq_repr, String.utf8ByteSize_append, hprefix]
  show _ ≤ 127
  omega

/-- Read back or by its place, the name of a record fits the buffer. -/
theorem utf8ByteSize_name (conv : Conversions) (hs : HString) {k : Nat} (hk : k < uintValues) :
    ((readName conv hs).getD (defaultName k)).utf8ByteSize ≤ nameCap - 1 := by
  cases hread : readName conv hs with
  | none => exact utf8ByteSize_defaultName hk
  | some s => exact utf8ByteSize_readName conv hread

/-- What is read of a new desktop is the name given to it, or not. -/
theorem read_name_iff (conv : Conversions) {name : String} (hne : name ≠ "")
    (hnul : ∀ c ∈ name.toList, c ≠ Char.ofNat 0) (made : Bool) {k : Nat} (hk : k < uintValues) :
    (readName conv (nameSet conv name made)).getD (defaultName k) = name ↔
      name.utf8ByteSize ≤ nameCap - 1 ∧ (made = true ∨ name = defaultName k) := by
  by_cases hfits : name.utf8ByteSize ≤ nameCap - 1
  · cases made with
    | true =>
      rw [readName_made conv hne hnul hfits]
      exact iff_of_true rfl ⟨hfits, Or.inl rfl⟩
    | false =>
      rw [readName_not_made, Option.getD_none]
      constructor
      · intro hname
        exact ⟨hfits, Or.inr hname.symm⟩
      · rintro ⟨-, hmade | hname⟩
        · exact Bool.noConfusion hmade
        · exact hname.symm
  -- what is too long for the buffer is neither read back nor a name by place
  · refine iff_of_false ?_ fun h => hfits h.1
    intro hname
    have hsize := utf8ByteSize_name conv (nameSet conv name made) hk
    rw [hname] at hsize
    exact hfits hsize

/-! ## The element that a record is filled from -/

/-- The element fills the record that is found under `id`: the one there is, or a new one. -/
structure Fills (ids : List GUID) (id : GUID) (e : ReadElement) : Prop where
  read : e.vd.isSome = true
  known : id ∈ ids → e.id = id
  new : id ∉ ids → e.id ∉ ids ∧ e.wrapped = id

/-- An element whose id has a record fills this one. -/
theorem fills_known_iff {ids : List GUID} {id : GUID} {e : ReadElement} (hread : e.vd.isSome = true)
    (hmem : e.id ∈ ids) : Fills ids id e ↔ e.id = id := by
  constructor
  · intro h
    by_cases hknown : id ∈ ids
    · exact h.known hknown
    · exact absurd hmem (h.new hknown).1
  · rintro rfl
    exact ⟨hread, fun _ => rfl, fun hnew => absurd hmem hnew⟩

/-- One whose id has none fills the new record, which is found if there was none. -/
theorem fills_new_iff {ids : List GUID} {id : GUID} {e : ReadElement} (hread : e.vd.isSome = true)
    (hmem : e.id ∉ ids) : Fills ids id e ↔ id ∉ ids ∧ e.wrapped = id := by
  constructor
  · intro h
    have hnew : id ∉ ids := fun hknown => hmem (h.known hknown ▸ hknown)
    exact ⟨hnew, (h.new hnew).2⟩
  · rintro ⟨hnew, hwrapped⟩
    exact ⟨hread, fun hknown => absurd hknown hnew, fun _ => ⟨hmem, hwrapped⟩⟩

/-- No element fills the record that is found under `id`. -/
def Unfilled (id : GUID) : List GUID → List ReadElement → Prop
  | _, [] => True
  | ids, e :: elements => ¬ Fills ids id e ∧ Unfilled id (knownWith ids e) elements

/-- The last element that fills the record found under `id` is `e`, at `k`. -/
inductive FilledFrom (id : GUID) : List GUID → List ReadElement → Nat → ReadElement → Prop
  | here {ids : List GUID} {e : ReadElement} {elements : List ReadElement}
      (hfills : Fills ids id e) (hrest : Unfilled id (knownWith ids e) elements) :
      FilledFrom id ids (e :: elements) 0 e
  | later {ids : List GUID} {first e : ReadElement} {elements : List ReadElement} {k : Nat}
      (hrest : FilledFrom id (knownWith ids first) elements k e) :
      FilledFrom id ids (first :: elements) (k + 1) e

section FilledFrom

variable {ids : List GUID} {id : GUID} {elements : List ReadElement} {e : ReadElement} {k : Nat}

theorem FilledFrom.at_place (h : FilledFrom id ids elements k e) : elements[k]? = some e := by
  induction h with
  | here _ _ => rfl
  | later _ ih => exact ih

theorem FilledFrom.not_unfilled (h : FilledFrom id ids elements k e) :
    ¬ Unfilled id ids elements := by
  induction h with
  | here hfills _ => exact fun hnone => hnone.1 hfills
  | later _ ih => exact fun hnone => ih hnone.2

theorem FilledFrom.unique (h : FilledFrom id ids elements k e) {k' : Nat} {e' : ReadElement}
    (h' : FilledFrom id ids elements k' e') : k' = k ∧ e' = e := by
  induction h generalizing k' with
  | here _ hrest =>
    cases h' with
    | here _ _ => exact ⟨rfl, rfl⟩
    | later hrest' => exact absurd hrest hrest'.not_unfilled
  | later hrest ih =>
    cases h' with
    | here _ hrest' => exact absurd hrest' hrest.not_unfilled
    | later hrest' =>
      obtain ⟨rfl, rfl⟩ := ih hrest'
      exact ⟨rfl, rfl⟩

theorem FilledFrom.exists_iff (h : FilledFrom id ids elements k e)
    {P : Nat → ReadElement → Prop} :
    (∃ k e, FilledFrom id ids elements k e ∧ P k e) ↔ P k e := by
  constructor
  · rintro ⟨k', e', hfilled, hP⟩
    obtain ⟨rfl, rfl⟩ := h.unique hfilled
    exact hP
  · exact fun hP => ⟨k, e, h, hP⟩

/-- The element has told the id, in the one read or in the other. -/
theorem FilledFrom.told (h : FilledFrom id ids elements k e) :
    e.vd.isSome = true ∧ (e.id = id ∨ e.wrapped = id) := by
  induction h with
  | @here ids _ _ hfills _ =>
    refine ⟨hfills.read, ?_⟩
    by_cases hmem : id ∈ ids
    · exact Or.inl (hfills.known hmem)
    · exact Or.inr (hfills.new hmem).2
  | later _ ih => exact ih

/-- Where both reads of each element tell the desktop that it is, the record of a desktop is
filled from this desktop. -/
theorem FilledFrom.own (h : FilledFrom id ids elements k e) {desktop : Nat → GUID}
    (hids : ∀ k e, elements[k]? = some e → e.vd.isSome = true →
      e.id = desktop k ∧ e.wrapped = desktop k) : desktop k = id := by
  obtain ⟨hread, htold⟩ := h.told
  obtain ⟨hid, hwrapped⟩ := hids k e h.at_place hread
  rcases htold with htold | htold
  · exact hid.symm.trans htold
  · exact hwrapped.symm.trans htold

end FilledFrom

/-! ## The name of a record -/

section Named

variable {t : Target} {id : GUID}

theorem findDesktop_updateDesktop {x : GUID} {f : VDesktop → VDesktop}
    (hf : ∀ d, (f d).id = d.id) (items : List VDesktop) :
    findDesktop (updateDesktop x f items) id =
      if x = id then (findDesktop items id).map f else findDesktop items id := by
  unfold findDesktop
  induction items with
  | nil => simp [updateDesktop]
  | cons d items ih =>
    unfold updateDesktop
    by_cases hx : d.id = x
    · rw [if_pos hx, List.find?_cons, List.find?_cons, hf d, hx]
      by_cases hid : x = id <;> simp [hid]
    · rw [if_neg hx, List.find?_cons, List.find?_cons, ih]
      by_cases hid : d.id = id
      · have hne : x ≠ id := fun h => hx (hid.trans h.symm)
        simp [hid, hne]
      · simp [hid]

theorem findDesktop_concat (items : List VDesktop) (d : VDesktop) :
    findDesktop (items ++ [d]) id =
      (findDesktop items id).or (if d.id = id then some d else none) := by
  rw [findDesktop, List.find?_append, List.find?_singleton]
  simp only [decide_eq_true_eq]
  rfl

/-- An element that the loop is through with, and the name of the record found under `id`. -/
theorem refreshElement_named {e : ReadElement} {vd : IVirtualDesktop} (hvd : e.vd = some vd)
    {ordinal : Nat} (hok : (refreshElement t e vd ordinal).1 = .ok) :
    let found := (findDesktop (refreshElement t e vd ordinal).2.items id).map (·.name)
    (Fills t.ids id e → found = some (e.name.getD (defaultName ordinal))) ∧
      (¬ Fills t.ids id e → found = (findDesktop t.items id).map (·.name)) := by
  intro found
  unfold found
  have hread : e.vd.isSome = true := by rw [hvd]; rfl
  rw [refreshElement] at hok ⊢
  cases hfind : findDesktop t.items e.id with
  | some existing =>
    rw [hfind] at hok
    rw [fills_known_iff hread (mem_ids_of_findDesktop hfind)]
    rcases refreshExisting_items t e.toDesktopElement vd existing ordinal with
      ⟨-, hitems⟩ | ⟨hfail, -⟩
    · have hupdate := @findDesktop_updateDesktop id e.id
        (refilled e.toDesktopElement vd ordinal) (fun _ => rfl) t.items
      simp only [hitems, hupdate]
      refine ⟨fun hid => ?_, fun hid => by rw [if_neg hid]⟩
      rw [if_pos hid, ← hid, hfind]
      rfl
    · exact absurd hok hfail
  | none =>
    rw [hfind] at hok
    rw [fills_new_iff hread (findDesktop_eq_none_iff.mp hfind)]
    rcases refreshNew_items t { e.toDesktopElement with id := e.wrapped } vd ordinal with
      ⟨-, addr, -, hitems⟩ | ⟨hfail, -⟩
    · simp only [hitems, findDesktop_concat]
      cases hold : findDesktop t.items id with
      -- a record that was there is found before the new one
      | some old =>
        have hknown : id ∈ t.ids := mem_ids_of_findDesktop hold
        exact ⟨fun hnew => absurd hknown hnew.1, fun _ => by rw [Option.some_or]⟩
      | none =>
        rw [Option.none_or]
        refine ⟨fun hnew => ?_, fun hnot => ?_⟩
        · simp [refilled, hnew.2, defaultName]
        · have hne : e.wrapped ≠ id :=
            fun hwrapped => hnot ⟨findDesktop_eq_none_iff.mp hold, hwrapped⟩
          simp [refilled, hne]
    · exact absurd hok hfail

/-- After the loop the record found under `id` has the name read from the element that filled it
last, or, if none did, the name that it had before. -/
theorem refreshReadFrom_named {elements : List ReadElement} {ordinal : Nat}
    (hok : (refreshReadFrom t ordinal elements).1 = .ok) :
    let found := (findDesktop (refreshReadFrom t ordinal elements).2.items id).map (·.name)
    (∃ k e, FilledFrom id t.ids elements k e ∧
        found = some (e.name.getD (defaultName (ordinal + k)))) ∨
      (Unfilled id t.ids elements ∧ found = (findDesktop t.items id).map (·.name)) := by
  intro found
  unfold found
  induction elements generalizing t ordinal with
  | nil => exact Or.inr ⟨trivial, rfl⟩
  | cons first elements ih =>
    have hplace : ∀ k, ordinal + 1 + k = ordinal + (k + 1) := fun k => by omega
    cases hvd : first.vd with
    -- what cannot be read fills nothing
    | none =>
      have hknown : knownWith t.ids first = t.ids := by simp [knownWith, hvd]
      rw [refreshReadFrom_cons_none hvd] at hok ⊢
      rcases ih hok with ⟨k, e, hfilled, hname⟩ | ⟨hnone, hname⟩
      · rw [← hknown] at hfilled
        exact Or.inl ⟨k + 1, e, .later hfilled, by rw [hname, hplace]⟩
      · refine Or.inr ⟨⟨fun hfills => ?_, by rwa [hknown]⟩, hname⟩
        have hread := hfills.read
        rw [hvd] at hread
        cases hread
    | some vd =>
      rw [refreshReadFrom_cons hvd] at hok ⊢
      by_cases hone : (refreshElement t first vd ordinal).1 = .ok
      · have hids := (refreshElement_ok_iff t hvd ordinal).2 hone
        obtain ⟨hfilled, hleft⟩ := @refreshElement_named t id first vd hvd ordinal hone
        rw [if_neg (not_not.mpr hone)] at hok ⊢
        rcases ih hok with ⟨k, e, hlater, hname⟩ | ⟨hnone, hname⟩
        · rw [hids] at hlater
          exact Or.inl ⟨k + 1, e, .later hlater, by rw [hname, hplace]⟩
        · rw [hids] at hnone
          by_cases hfills : Fills t.ids id first
          · exact Or.inl ⟨0, first, .here hfills hnone, hname.trans (hfilled hfills)⟩
          · exact Or.inr ⟨⟨hfills, hnone⟩, hname.trans (hleft hfills)⟩
      · rw [if_pos hone] at hok
        exact absurd hok hone

end Named

/-! ## Names and creations -/

/-- What a creation returns, by the element that filled it last. -/
theorem create_named (conv : Conversions) (desktops : List OsDesktop) (t : Target) (name : String)
    {o : CreateOutcome} {created : GUID} {elements : List ReadElement} {d : VDesktop}
    (hcreated : o.created = some created) (harr : o.arr = some elements)
    (hd : (wmVdesktopCreate conv desktops t name o).out = some d) :
    (∃ k e, FilledFrom (if o.idRead then created else 0) t.ids elements k e ∧
        d.name = e.name.getD (defaultName k)) ∨
      (Unfilled (if o.idRead then created else 0) t.ids elements ∧
        ∃ old, findDesktop t.items (if o.idRead then created else 0) = some old ∧
          old.name = d.name) := by
  rw [wmVdesktopCreate, hcreated, harr] at hd
  simp only at hd
  generalize (if o.idRead then created else 0) = id at hd ⊢
  by_cases hok : (refreshRead t (some elements)).1 = .ok
  · rw [if_neg (not_not.mpr hok)] at hd
    cases hfind : findDesktop (refreshRead t (some elements)).2.items id with
    | none =>
      rw [hfind] at hd
      cases hd
    | some d' =>
      rw [hfind] at hd
      obtain rfl : d' = d := Option.some.inj hd
      have hnamed := @refreshReadFrom_named (resetCache t) id elements 0 hok
      rw [show refreshReadFrom (resetCache t) 0 elements = refreshRead t (some elements) from rfl,
        hfind, ids_resetCache] at hnamed
      rcases hnamed with ⟨k, e, hfilled, hname⟩ | ⟨hnone, hname⟩
      · rw [Nat.zero_add] at hname
        exact Or.inl ⟨k, e, hfilled, Option.some.inj hname⟩
      -- the record is an old one, that the reset left its name
      · have hreset : findDesktop (resetCache t).items id =
            (findDesktop t.items id).map fun d => { d with valid := false } := by
          rw [findDesktop, findDesktop, resetCache, List.find?_map]
          rfl
        rw [hreset, Option.map_map] at hname
        obtain ⟨old, hold, hsame⟩ := Option.map_eq_some_iff.mp hname.symm
        exact Or.inr ⟨hnone, old, hold, hsame⟩
  · rw [if_pos hok] at hd
    cases hd

/-- **Names of new desktops.** Let `desktop k` be the desktop that the element at `k` is; those of
the new desktop read what was set. What is returned for the name has it exactly if its record was
filled last from the new desktop, and the name takes at most 127 bytes and the string for it
can be made, or it is the one that the desktop gets by its place anyway; or if the record was
filled last from another desktop, or not at all, and has this very name from there. -/
theorem create_name_iff (conv : Conversions) (desktops : List OsDesktop) (t : Target)
    {name : String} (hne : name ≠ "") (hnul : ∀ c ∈ name.toList, c ≠ Char.ofNat 0)
    {o : CreateOutcome} {created : GUID} {elements : List ReadElement} {desktop : Nat → GUID}
    {d : VDesktop} (hcreated : o.created = some created) (harr : o.arr = some elements)
    (hcount : elements.length < uintValues)
    (hreads : ∀ k e, elements[k]? = some e → desktop k = created →
      e.name = readName conv (nameSet conv name o.made))
    (hd : (wmVdesktopCreate conv desktops t name o).out = some d) :
    let id := if o.idRead then created else 0
    d.name = name ↔
      (∃ k e, FilledFrom id t.ids elements k e ∧ desktop k = created ∧
        name.utf8ByteSize ≤ nameCap - 1 ∧ (o.made = true ∨ name = defaultName k)) ∨
      (∃ k e, FilledFrom id t.ids elements k e ∧ desktop k ≠ created ∧
        name = e.name.getD (defaultName k)) ∨
      (Unfilled id t.ids elements ∧
        ∃ old, findDesktop t.items id = some old ∧ old.name = name) := by
  intro id
  rcases create_named conv desktops t name hcreated harr hd with
    ⟨k, e, hfilled, hname⟩ | ⟨hnone, old, hold, hname⟩
  · have hat := hfilled.at_place
    have hlt := (List.getElem?_eq_some_iff.mp hat).1
    rw [hfilled.exists_iff, hfilled.exists_iff, hname]
    by_cases hown : desktop k = created
    · rw [hreads k e hat hown, read_name_iff conv hne hnul o.made (Nat.lt_trans hlt hcount)]
      constructor
      · exact fun h => Or.inl ⟨hown, h⟩
      · rintro (h | h | h)
        · exact h.2
        · exact absurd hown h.1
        · exact absurd h.1 hfilled.not_unfilled
    · constructor
      · exact fun h => Or.inr (Or.inl ⟨hown, h.symm⟩)
      · rintro (h | h | h)
        · exact absurd h.1 hown
        · exact h.2.symm
        · exact absurd h.1 hfilled.not_unfilled
  · rw [← hname]
    constructor
    · exact fun h => Or.inr (Or.inr ⟨hnone, old, hold, h⟩)
    · rintro (⟨k, e, hfilled, -⟩ | ⟨k, e, hfilled, -⟩ | ⟨-, old', hold', h⟩)
      · exact absurd hnone hfilled.not_unfilled
      · exact absurd hnone hfilled.not_unfilled
      · obtain rfl : old = old' := Option.some.inj (hold.symm.trans hold')
        exact h

/-- The desktop 2, the only one, as it is read after it was created with a name. -/
def readBack (name : String) : ReadElement :=
  ⟨⟨some 11, 2, readName .standard (nameSet .standard name true), true, some 101, true⟩, 2⟩

/-- Every call succeeds. -/
def createGiven (name : String) : CreateOutcome := ⟨some 2, true, true, true, some [readBack name]⟩

/-- The record made for it. -/
def readBackRecord (name : String) : VDesktop :=
  ⟨101, 11, 2, (readBack name).name.getD (defaultName 0), true⟩

theorem create_readBack (name : String) :
    (wmVdesktopCreate .standard [] .init name (createGiven name)).out =
      some (readBackRecord name) := rfl

/-- A name of `n` letters. -/
def longName (n : Nat) : String := String.ofList (List.replicate n 'a')

theorem utf8ByteSize_longName (n : Nat) : (longName n).utf8ByteSize = n := by
  have hone : Char.utf8Size 'a' = 1 := by decide
  rw [longName, utf8ByteSize_ofList]
  induction n with
  | zero => rfl
  | succ n ih => rw [List.replicate_succ, utf8Bytes_cons, ih, hone, Nat.add_comm]

theorem longName_no_nul (n : Nat) : ∀ c ∈ (longName n).toList, c ≠ Char.ofNat 0 := by
  rw [longName, String.toList_ofList]
  intro c hc
  rw [List.eq_of_mem_replicate hc]
  decide

theorem longName_ne {n : Nat} (h : 0 < n) : longName n ≠ "" := by
  intro hempty
  have hsize := utf8ByteSize_longName n
  rw [hempty, String.utf8ByteSize_empty] at hsize
  omega

theorem create_name_iff_short :
    (readBackRecord (longName 4)).name = longName 4 ↔
      (∃ k e, FilledFrom 2 [] [readBack (longName 4)] k e ∧ (2 : GUID) = 2 ∧
        (longName 4).utf8ByteSize ≤ nameCap - 1 ∧ (true = true ∨ longName 4 = defaultName k)) ∨
      (∃ k e, FilledFrom 2 [] [readBack (longName 4)] k e ∧ (2 : GUID) ≠ 2 ∧
        longName 4 = e.name.getD (defaultName k)) ∨
      (Unfilled 2 [] [readBack (longName 4)] ∧
        ∃ old, findDesktop Target.init.items 2 = some old ∧ old.name = longName 4) :=
  @create_name_iff .standard [] .init (longName 4) (longName_ne (by decide)) (longName_no_nul 4)
    (createGiven (longName 4)) 2 [readBack (longName 4)] (fun _ => 2) _ rfl rfl (by decide)
    (by
      intro k e hk _
      cases k with
      | zero => rw [← Option.some.inj hk]; rfl
      | succ k => cases hk)
    (create_readBack _)

/-- A name that is too long for the way back is lost. -/
theorem readBackRecord_ne {name : String} (hlong : nameCap - 1 < name.utf8ByteSize) :
    (readBackRecord name).name ≠ name := by
  intro hname
  have hsize : (readBackRecord name).name.utf8ByteSize ≤ nameCap - 1 :=
    utf8ByteSize_name .standard (nameSet .standard name true) (by decide)
  rw [hname] at hsize
  omega

/-- 128 letters go to the OS and do not come back, and the creation succeeds all the same. -/
theorem create_loses_name :
    longName 128 ≠ "" ∧ (∀ c ∈ (longName 128).toList, c ≠ Char.ofNat 0) ∧
      let result := wmVdesktopCreate .standard [] .init (longName 128)
        (createGiven (longName 128))
      result.error = .ok ∧ ¬ ∀ d, result.out = some d → d.name = longName 128 := by
  refine ⟨longName_ne (by decide), longName_no_nul 128, rfl, ?_⟩
  intro h
  have hlong : nameCap - 1 < (longName 128).utf8ByteSize := by
    rw [utf8ByteSize_longName]
    decide
  exact readBackRecord_ne hlong (h _ (create_readBack _))

/-- `GetID` fails for the new desktop, and for the desktop "mail" when its record is made: the
creation of "work" succeeds and returns "mail". -/
example :
    let mail : ReadElement := ⟨⟨some 10, 1, some "mail", true, some 100, true⟩, 0⟩
    let result := wmVdesktopCreate .standard [] .init "work"
      ⟨some 2, true, true, false, some [mail, readBack "work"]⟩
    result.error = .ok ∧ result.out.map (·.name) = some "mail" := ⟨rfl, rfl⟩

end Uniwm
