import Uniwm.Desktops.Ownership
import Uniwm.Model.Lifetime

/-!
# uniwm — a target gives back all that it was handed

`win_init` has five calls that may fail, and each failure has to undo what was done before it;
`win_destroy` undoes all of it, and interfaces must be released while the COM apartment still
stands. `Owns` says what is held at any time: nothing without a target, else what the target
points to and what its cache accounts for.

* `Owns.winInit`, `Owns.winDestroy`, `Owns.use` — every function keeps to that.
* `toProcess_step` — the accounts apart, these are `wm_process` and `wm_process_fini` of
  `Uniwm.Model.System`.
* `life_owns` — so it is in every run, and no interface is left when the apartment is.
-/

namespace Uniwm

open Base

-- ----------------------------------------------------------------------------
-- What a target holds
-- ----------------------------------------------------------------------------

/-- What is held for a target, apart from its cache. -/
def WMTarget.held (t : WMTarget) : List Resource :=
  [.memory t.addr, .apartment, .interface t.sp, .interface t.vdmi] ++
    (t.vdm.toList ++ t.avc.toList).map .interface

/-- Nothing is held without a target. -/
def heldBy (t : Option WMTarget) : List Resource := (t.map WMTarget.held).getD []

namespace TargetLife

/-- The cache and its accounts are in order, and no interface was held when the apartment was
left. -/
structure Sound (s : TargetLife) : Prop where
  cache : s.cache.Accounts s.cache.items [] []
  uninitialized : ∀ n ∈ s.uninitialized, n = 0

/-- What the process holds is what its target and the cache hold. -/
structure Owns (s : TargetLife) : Prop extends Sound s where
  account : s.account.Balanced (heldBy s.processWm)
  empty : s.processWm = none → s.cache.items = []

section Accounts

variable {s : TargetLife} {held : List Resource} {r : Resource}

/-- A string or an interface that is passed through a function. -/
theorem passIfAny_account (h : s.account.Balanced held) (f : Ptr → Resource) (p : Option Ptr) :
    (s.passIfAny f p).account.Balanced held := by
  cases p with
  | none => exact h
  | some p => exact h.pass (f p)

theorem takeIfAny_account (h : s.account.Balanced held) (this : Option Ptr) :
    (s.takeIfAny this).account.Balanced (held ++ this.toList.map .interface) := by
  cases this with
  | none => simpa [takeIfAny] using h
  | some this => exact h.take (.interface this)

theorem releaseIfAny_account {this : Option Ptr}
    (h : s.account.Balanced (held ++ this.toList.map .interface)) :
    (s.releaseIfAny this).account.Balanced held := by
  cases this with
  | none => simpa [releaseIfAny] using h
  | some this => exact h.giveBack

/-- `s'` differs from `s` in the account only. -/
structure SameBut (s s' : TargetLife) : Prop where
  defaultTi : s'.defaultTi = s.defaultTi
  processWm : s'.processWm = s.processWm
  cache : s'.cache = s.cache
  uninitialized : s'.uninitialized = s.uninitialized

theorem SameBut.trans {s' s'' : TargetLife} (h : SameBut s s') (h' : SameBut s' s'') :
    SameBut s s'' :=
  ⟨h'.defaultTi.trans h.defaultTi, h'.processWm.trans h.processWm, h'.cache.trans h.cache,
    h'.uninitialized.trans h.uninitialized⟩

theorem SameBut.sound {s' : TargetLife} (h : SameBut s s') (hsound : s.Sound) : s'.Sound := by
  refine ⟨?_, ?_⟩
  · rw [h.cache]
    exact hsound.cache
  · rw [h.uninitialized]
    exact hsound.uninitialized

theorem take_same (s : TargetLife) (r : Resource) : SameBut s (s.take r) := ⟨rfl, rfl, rfl, rfl⟩

theorem giveBack_same (s : TargetLife) (r : Resource) : SameBut s (s.giveBack r) :=
  ⟨rfl, rfl, rfl, rfl⟩

theorem takeIfAny_same (s : TargetLife) (this : Option Ptr) : SameBut s (s.takeIfAny this) := by
  cases this <;> exact ⟨rfl, rfl, rfl, rfl⟩

theorem releaseIfAny_same (s : TargetLife) (this : Option Ptr) :
    SameBut s (s.releaseIfAny this) := by
  cases this <;> exact ⟨rfl, rfl, rfl, rfl⟩

theorem passIfAny_same (s : TargetLife) (f : Ptr → Resource) (p : Option Ptr) :
    SameBut s (s.passIfAny f p) := by
  cases p <;> exact ⟨rfl, rfl, rfl, rfl⟩

/-- When nothing but memory and the apartment is held, and nothing by the cache, no interface
is. -/
theorem interfacesOut_eq_zero {addr : Ptr}
    (haccount : s.account.Balanced [.memory addr, .apartment])
    (hcache : s.cache.Accounts [] [] []) : s.interfacesOut = 0 := by
  have hinterfaces := haccount.countP_eq Resource.isInterface
  have hifaces := hcache.ifaces.perm.length_eq
  have harrays := hcache.arrays.perm.length_eq
  have hnone : [Resource.memory addr, .apartment].countP Resource.isInterface = 0 := rfl
  simp only [List.map_nil, List.append_nil, List.nil_append] at hifaces harrays
  unfold interfacesOut
  omega

/-- The way out of `win_init` and of `win_destroy`. -/
theorem coUninit_free {addr : Ptr} (h : s.Sound)
    (haccount : s.account.Balanced [.memory addr, .apartment]) (hitems : s.cache.items = []) :
    let out := s.coUninit.giveBack (.memory addr)
    out.Sound ∧ out.account.Balanced [] := by
  intro out
  have hcache : s.cache.Accounts [] [] [] := hitems ▸ h.cache
  refine ⟨⟨h.cache, ?_⟩, ?_⟩
  · show ∀ n ∈ s.uninitialized ++ [s.interfacesOut], n = 0
    rw [List.forall_mem_append, List.forall_mem_singleton]
    exact ⟨h.uninitialized, interfacesOut_eq_zero haccount hcache⟩
  · have hleft : [Resource.memory addr, .apartment].Perm [.apartment, .memory addr] := .swap ..
    exact (haccount.congr hleft.symm).giveBack_cons.giveBack_cons

end Accounts

-- ----------------------------------------------------------------------------
-- The functions
-- ----------------------------------------------------------------------------

section Functions

variable {s : TargetLife}

/-- `win_init` leaves nothing behind unless it makes a target, which then holds what it was
given. -/
theorem Owns.winInit (h : s.Owns) (hnone : s.processWm = none) (o : InitOutcome) :
    let out := s.winInit o
    (out.1 = .ok ↔ out.2.1.isSome = true) ∧ out.2.2.Sound ∧
      out.2.2.account.Balanced (heldBy out.2.1) ∧ out.2.2.cache = s.cache ∧
      out.2.2.processWm = none ∧ out.2.2.defaultTi = s.defaultTi := by
  intro out
  have hstart : s.account.Balanced [] := by
    have haccount := h.account
    rwa [hnone] at haccount
  have hitems := h.empty hnone
  obtain ⟨alloc, coInitialize, sp, vdmi, vdm, avc⟩ := o
  cases alloc with
  | none => exact ⟨by simp [out, TargetLife.winInit], h.toSound, hstart, rfl, hnone, rfl⟩
  | some addr =>
    have hmemory := hstart.take (.memory addr)
    cases coInitialize with
    | false =>
      exact ⟨by simp [out, TargetLife.winInit], ⟨h.cache, h.uninitialized⟩, hmemory.giveBack,
        rfl, hnone, rfl⟩
    | true =>
      have hapartment := hmemory.take .apartment
      cases sp with
      | none =>
        obtain ⟨hsound, hdone⟩ := coUninit_free
          (s := (s.take (.memory addr)).take .apartment) ⟨h.cache, h.uninitialized⟩ hapartment
          hitems
        exact ⟨by simp [out, TargetLife.winInit], hsound, hdone, rfl, hnone, rfl⟩
      | some sp =>
        have hsp := hapartment.take (.interface sp)
        cases vdmi with
        | none =>
          obtain ⟨hsound, hdone⟩ := coUninit_free
            (s := (((s.take (.memory addr)).take .apartment).take (.interface sp)).giveBack
              (.interface sp)) ⟨h.cache, h.uninitialized⟩ hsp.giveBack hitems
          exact ⟨by simp [out, TargetLife.winInit], hsound, hdone, rfl, hnone, rfl⟩
        | some vdmi =>
          -- the four things are held, and whichever of the two others were given
          have hvdmi : ((((s.take (.memory addr)).take .apartment).take (.interface sp)).take
              (.interface vdmi)).account.Balanced
                [.memory addr, .apartment, .interface sp, .interface vdmi] :=
            hsp.take (.interface vdmi)
          have hboth := takeIfAny_account (takeIfAny_account hvdmi vdm) avc
          have hsame := ((((((take_same s (.memory addr)).trans (take_same _ .apartment)).trans
            (take_same _ (.interface sp))).trans (take_same _ (.interface vdmi))).trans
            (takeIfAny_same _ vdm)).trans (takeIfAny_same _ avc))
          refine ⟨by simp [out, TargetLife.winInit], hsame.sound h.toSound, ?_, hsame.cache,
            hsame.processWm.trans hnone, hsame.defaultTi⟩
          show Account.Balanced _ (_ ++ (vdm.toList ++ avc.toList).map Resource.interface)
          rw [List.map_append, ← List.append_assoc]
          exact hboth

/-- `win_destroy` gives back what the target holds, the apartment after all interfaces. -/
theorem Owns.winDestroy (h : s.Owns) {t : WMTarget} (ht : s.processWm = some t) :
    let out := s.winDestroy t
    out.Sound ∧ out.account.Balanced [] ∧ out.cache.items = [] := by
  intro out
  have haccount : s.account.Balanced (t.held) := by
    have haccount := h.account
    rwa [ht] at haccount
  obtain ⟨addr, sp, vdmi, vdm, avc⟩ := t
  -- the cache first
  have hcache := h.cache.winDestroy
  let s₁ : TargetLife := { s with cache := s.cache.winDestroy }
  have hs₁ : s₁.account.Balanced
      (([.memory addr, .apartment, .interface sp, .interface vdmi] ++
        vdm.toList.map .interface) ++ avc.toList.map .interface) := by
    show s.account.Balanced _
    rw [List.append_assoc, ← List.map_append]
    exact haccount
  -- then the services, in the opposite order, and then the apartment
  have hservices : ((s₁.releaseIfAny avc).releaseIfAny vdm).account.Balanced
      ([.memory addr, .apartment, .interface sp] ++ [.interface vdmi]) :=
    releaseIfAny_account (releaseIfAny_account hs₁)
  have hsp : (((s₁.releaseIfAny avc).releaseIfAny vdm).giveBack
      (.interface vdmi)).account.Balanced ([.memory addr, .apartment] ++ [.interface sp]) :=
    hservices.giveBack
  have hsame := (((releaseIfAny_same s₁ avc).trans (releaseIfAny_same _ vdm)).trans
    (giveBack_same _ (.interface vdmi))).trans (giveBack_same _ (.interface sp))
  have hsound : s₁.Sound := ⟨hcache, h.uninitialized⟩
  obtain ⟨hout, hdone⟩ := coUninit_free (hsame.sound hsound) hsp.giveBack
    (by rw [hsame.cache]; rfl)
  refine ⟨hout, hdone, ?_⟩
  show (((((s₁.releaseIfAny avc).releaseIfAny vdm).giveBack (.interface vdmi)).giveBack
      (.interface sp)).coUninit.giveBack (.memory addr)).cache.items = []
  show ((((s₁.releaseIfAny avc).releaseIfAny vdm).giveBack (.interface vdmi)).giveBack
      (.interface sp)).cache.items = []
  rw [hsame.cache]
  rfl

/-- A refresh is the business of the cache. -/
theorem Owns.winGetVdesk (h : s.Owns) {t : WMTarget} (ht : s.processWm = some t)
    (arr : Option (Ptr × List OwnedElement)) : (s.winGetVdesk arr).Owns where
  cache := h.cache.refresh arr
  uninitialized := h.uninitialized
  account := h.account
  empty := fun hnone => by
    rw [show (s.winGetVdesk arr).processWm = s.processWm from rfl, ht] at hnone
    cases hnone

/-- What is passed through a function is not held afterwards. -/
theorem Owns.passIfAny (h : s.Owns) (f : Ptr → Resource) (p : Option Ptr) :
    (s.passIfAny f p).Owns := by
  have hsame := passIfAny_same s f p
  refine ⟨hsame.sound h.toSound, ?_, ?_⟩
  · rw [hsame.processWm]
    exact passIfAny_account h.account f p
  · rw [hsame.processWm, hsame.cache]
    exact h.empty

/-- **Every use** of a target. -/
theorem Owns.use (h : s.Owns) {t : WMTarget} (ht : s.processWm = some t) (st : LifeStep) :
    (st.use s t).Owns := by
  cases st with
  | setDefault ti => exact h
  | process o => exact h
  | fini => exact h
  | getVdesk arr => exact h.winGetVdesk ht arr
  | windows cur =>
    show (s.winVdeskWindows t cur).Owns
    unfold TargetLife.winVdeskWindows
    split
    · exact h
    · exact h.passIfAny .interface cur
  | moveWindow view =>
    show (s.winVdeskMoveWindow t view).Owns
    unfold TargetLife.winVdeskMoveWindow
    split
    · exact h
    · exact h.passIfAny .interface view
  | current arr cur =>
    show (s.winVdeskCurrent arr cur).Owns
    unfold TargetLife.winVdeskCurrent
    -- an empty cache is refreshed first
    by_cases hempty : s.cache.items.length = 0
    · have hfilled := h.winGetVdesk ht arr
      simp only [if_pos hempty]
      split
      · exact hfilled
      · exact hfilled.passIfAny .interface cur
    · simp only [if_neg hempty]
      exact h.passIfAny .interface cur
  | create o =>
    show (s.winVdeskCreate o).Owns
    unfold TargetLife.winVdeskCreate
    cases o.created with
    | none => exact h
    | some vd =>
      -- the new desktop is held while its name is set
      have htaken : (s.take (.interface vd)).account.Balanced
          (heldBy s.processWm ++ [.interface vd]) := h.account.take (.interface vd)
      have hheld := passIfAny_account htaken .string o.string
      have hsame := ((take_same s (.interface vd)).trans (passIfAny_same _ .string o.string)).trans
        (giveBack_same _ (.interface vd))
      have hdone : ((((s.take (.interface vd)).passIfAny .string o.string)).giveBack
          (.interface vd)).Owns := by
        refine ⟨hsame.sound h.toSound, ?_, ?_⟩
        · rw [hsame.processWm]
          exact hheld.giveBack
        · rw [hsame.processWm, hsame.cache]
          exact h.empty
      exact hdone.winGetVdesk (hsame.processWm.trans ht) o.arr

/-- **One step.** -/
theorem Owns.step (h : s.Owns) (st : LifeStep) : (s.step st).1.Owns := by
  have huse : ∀ st : LifeStep, (s.processWm.elim s (st.use s)).Owns := by
    intro st
    cases ht : s.processWm with
    | none => exact h
    | some t => exact h.use ht st
  cases st with
  | setDefault ti => exact ⟨⟨h.cache, h.uninitialized⟩, h.account, h.empty⟩
  | process o =>
    show (s.wmProcess o).Owns
    unfold TargetLife.wmProcess
    cases ht : s.processWm with
    | some t => exact h
    | none =>
      cases s.defaultTi with
      | none => exact h
      | some ti =>
        obtain ⟨hok, hsound, haccount, hcache, hprocess, -⟩ := h.winInit ht o
        have hitems : (s.winInit o).2.2.cache.items = [] := by
          rw [hcache]
          exact h.empty ht
        simp only
        by_cases herror : (s.winInit o).1 = .ok
        · rw [if_neg (not_not.mpr herror)]
          exact ⟨⟨hsound.cache, hsound.uninitialized⟩, haccount, fun _ => hitems⟩
        -- no target has been made, and nothing is held for one
        · rw [if_pos herror]
          have hnone : (s.winInit o).2.1 = none := by
            rw [← Option.not_isSome_iff_eq_none, ← hok]
            exact herror
          refine ⟨hsound, ?_, fun _ => hitems⟩
          rw [hprocess]
          rwa [hnone] at haccount
  | fini =>
    show s.wmProcessFini.Owns
    unfold TargetLife.wmProcessFini
    cases ht : s.processWm with
    | none => exact h
    | some t =>
      obtain ⟨hsound, haccount, hitems⟩ := h.winDestroy ht
      exact ⟨⟨hsound.cache, hsound.uninitialized⟩, haccount, fun _ => hitems⟩
  | getVdesk arr => exact huse _
  | create o => exact huse _
  | current arr cur => exact huse _
  | windows cur => exact huse _
  | moveWindow view => exact huse _

end Functions

/-- A process that has done nothing yet. -/
theorem owns_init : init.Owns :=
  ⟨⟨⟨Account.balanced_empty, Account.balanced_empty, Account.balanced_empty,
    Account.balanced_empty⟩, fun _ h => absurd h List.not_mem_nil⟩, Account.balanced_empty,
    fun _ => rfl⟩

-- ----------------------------------------------------------------------------
-- The process under the accounts
-- ----------------------------------------------------------------------------

/-- The process of `Uniwm.Model.System`. -/
def toProcess (s : TargetLife) : Process := ⟨s.defaultTi, s.processWm.map fun _ => .windows⟩

/-- **The same functions.** -/
theorem toProcess_step {s : TargetLife} (h : s.Owns) (o : InitOutcome) :
    (s.wmProcess o).toProcess =
        (Uniwm.wmProcess s.toProcess (decide ((s.winInit o).1 = .ok))).1 ∧
      ∀ {keyMax : Nat} (sys : System keyMax), sys.process = s.toProcess →
        (Uniwm.wmProcessFini sys).process = s.wmProcessFini.toProcess := by
  constructor
  · cases ht : s.processWm with
    | some t => simp [TargetLife.wmProcess, Uniwm.wmProcess, toProcess, ht]
    | none =>
      cases hti : s.defaultTi with
      | none => simp [TargetLife.wmProcess, Uniwm.wmProcess, toProcess, ht, hti]
      | some ti =>
        cases ti
        obtain ⟨hok, -, -, -, hprocess, hdefault⟩ := h.winInit ht o
        by_cases herror : (s.winInit o).1 = .ok
        · obtain ⟨t, hmade⟩ := Option.isSome_iff_exists.mp (hok.mp herror)
          simp [TargetLife.wmProcess, Uniwm.wmProcess, toProcess, ht, hti, herror, hmade, hdefault]
        · simp [TargetLife.wmProcess, Uniwm.wmProcess, toProcess, ht, hti, herror, hprocess,
            hdefault]
  · intro keyMax sys hsys
    cases ht : s.processWm with
    | none => simp [TargetLife.wmProcessFini, Uniwm.wmProcessFini, toProcess, hsys, ht]
    | some t =>
      have hdefault : (s.winDestroy t).defaultTi = s.defaultTi := by
        obtain ⟨addr, sp, vdmi, vdm, avc⟩ := t
        cases vdm <;> cases avc <;> rfl
      simp [TargetLife.wmProcessFini, Uniwm.wmProcessFini, toProcess, hsys, ht, hdefault]

end TargetLife

/-- **Whatever fails, everything is given back.** After any calls of `wm_process` and
`wm_process_fini`, with any of the calls made by `win_init` failing, and any uses of the target
between them:
* what is held is what the target points to, if there is one, and one interface, one name and
  one record for each desktop of its cache; no array is held between two calls;
* without a target nothing is held, and all that was handed out was given back as often;
* whenever the COM apartment was left, every interface had been released.
In particular nothing is ever given back twice. -/
theorem life_owns (steps : List LifeStep) :
    let s := final TargetLife.step .init steps
    s.account.Balanced (heldBy s.processWm) ∧
      s.cache.ifaces.Balanced (s.cache.items.map (·.desktop.iface)) ∧
      s.cache.names.Balanced (s.cache.items.map (·.nameAt)) ∧
      s.cache.records.Balanced (s.cache.items.map (·.desktop.addr)) ∧
      s.cache.arrays.Balanced [] ∧
      (∀ n ∈ s.uninitialized, n = 0) ∧
      (s.processWm = none → s.account.returned.Perm s.account.taken ∧
        s.cache.ifaces.returned.Perm s.cache.ifaces.taken ∧
        s.cache.names.returned.Perm s.cache.names.taken ∧
        s.cache.records.returned.Perm s.cache.records.taken ∧
        s.cache.arrays.returned.Perm s.cache.arrays.taken) := by
  intro s
  have howns : s.Owns := final_induction TargetLife.step TargetLife.Owns (fun _ => True)
    (fun s st _ h => h.step st) TargetLife.owns_init (fun _ _ => trivial)
  have hifaces := howns.cache.ifaces
  rw [List.append_nil] at hifaces
  refine ⟨howns.account, hifaces, howns.cache.names, howns.cache.records, howns.cache.arrays,
    howns.uninitialized, ?_⟩
  intro hnone
  have haccount : s.account.Balanced [] := by
    have haccount := howns.account
    rwa [hnone] at haccount
  have hcache : s.cache.Accounts [] [] [] := howns.empty hnone ▸ howns.cache
  exact ⟨haccount.settled, hcache.ifaces.settled, hcache.names.settled, hcache.records.settled,
    hcache.arrays.settled⟩

end Uniwm
