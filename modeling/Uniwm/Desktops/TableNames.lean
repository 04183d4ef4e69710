import Uniwm.Desktops.Tables

/-!
# uniwm — the names in the tables

A refresh replaces the name of a record, but `push_vdesk` writes a name only into a table that
it makes. So a table that is handed out again keeps the name of its making, and a
`VDESKTOP_CHANGED` event, which reads the record, may carry another one.

`pushSpan_at` says which table each push gives: the one that the cache has left
(`LeftAt`), or a new one. From it `vdesk_names_iff`: the names are right at every step of a run
exactly if at every step what the cache has left for a desktop was made under its name.
-/

namespace Uniwm

open Base

/-! ## Looking up what is left -/

section Cache

variable {c : WeakCache Ptr VDeskTable} {k k' : Ptr} {table : VDeskTable}

/-- Each table is under the address of its record, and there is one at most for each. -/
structure ByRecord (c : WeakCache Ptr VDeskTable) : Prop where
  keys : (c.entries.map (·.1)).Nodup
  vdesk : ∀ e ∈ c.entries, e.2.vdesk = e.1

theorem ByRecord.get_iff (h : ByRecord c) : c.get k = some table ↔ (k, table) ∈ c.entries := by
  constructor
  · exact WeakCache.mem_of_get
  · intro hmem
    rw [WeakCache.get, find?_keyed h.keys hmem rfl]
    rfl

/-- A collection leaves what is live and what it does not clear. -/
theorem ByRecord.collect (h : ByRecord c) (live : List VDeskTable) (cleared : VDeskTable → Bool) :
    ByRecord (c.collect live cleared) ∧
      ∀ k table, (c.collect live cleared).get k = some table ↔
        c.get k = some table ∧ (table ∈ live ∨ cleared table = false) := by
  have hleft : ByRecord (c.collect live cleared) :=
    ⟨h.keys.sublist (List.filter_sublist.map _), fun e he => h.vdesk e (List.mem_filter.mp he).1⟩
  refine ⟨hleft, ?_⟩
  intro k table
  rw [hleft.get_iff, h.get_iff, WeakCache.collect, List.mem_filter]
  simp

/-- A table that is put in stands for its record only. -/
theorem ByRecord.put (h : ByRecord c) (hget : c.get table.vdesk = none) :
    ByRecord (c.put table.vdesk table) ∧
      ∀ k, k ≠ table.vdesk → (c.put table.vdesk table).get k = c.get k := by
  have habsent : ∀ e ∈ c.entries, e.1 ≠ table.vdesk := by
    intro e he hkey
    have hsome := h.get_iff.mpr he
    rw [hkey, hget] at hsome
    cases hsome
  have hentries : (c.put table.vdesk table).entries = c.entries ++ [(table.vdesk, table)] := by
    rw [WeakCache.put, List.filter_eq_self.mpr (by simpa using habsent)]
  refine ⟨⟨?_, ?_⟩, ?_⟩
  · rw [hentries, List.map_append, List.nodup_append_comm]
    refine List.nodup_cons.mpr ⟨?_, h.keys⟩
    intro hmem
    obtain ⟨e, he, hkey⟩ := List.mem_map.mp hmem
    exact habsent e he hkey
  · rw [hentries, List.forall_mem_append, List.forall_mem_singleton]
    exact ⟨h.vdesk, rfl⟩
  · intro k hk
    rw [WeakCache.get, WeakCache.get, hentries, List.find?_append]
    simp [Ne.symm hk]

end Cache

/-! ## What each push gives -/

/-- The table that the cache has for a record, if it is still there at push `k` of a call: the
script holds it, or none of the collections from `n` to that push clears it. -/
def LeftAt (s : LuaDesktops) (gc : Collector) (n k : Nat) (d : VDesktop) (table : VDeskTable) :
    Prop :=
  s.cache.get d.addr = some table ∧
    (table ∈ s.held ∨ ∀ j, n ≤ j → j ≤ k → gc j table = false)

section Push

variable {s : LuaDesktops} {gc : Collector} {pushed : List (GUID × VDeskTable)}
  {span : List VDesktop} {d : VDesktop}

/-- One push gives the table of the cache or a new one, and touches no other record's. -/
theorem pushVdesk_out (h : ByRecord s.cache) (d : VDesktop) :
    let out := pushVdesk s d
    ByRecord out.2.cache ∧ out.1.vdesk = d.addr ∧
      (∀ k, k ≠ d.addr → out.2.cache.get k = s.cache.get k) ∧
      (s.cache.get d.addr = some out.1 ∨ s.cache.get d.addr = none ∧ out.1.name = d.name) := by
  intro out
  cases hget : s.cache.get d.addr with
  | some table =>
    have hout : out = (table, s) := pushVdesk_hit hget
    rw [hout]
    exact ⟨h, h.vdesk _ (WeakCache.mem_of_get hget), fun _ _ => rfl, Or.inl rfl⟩
  | none =>
    have hout : out = _ := pushVdesk_miss hget
    have hput := @ByRecord.put s.cache ⟨s.made, d.addr, d.name⟩ h hget
    rw [hout]
    exact ⟨hput.1, rfl, hput.2, Or.inr ⟨rfl, rfl⟩⟩

/-- What has been pushed stays on the stack. -/
theorem pushSpan_prefix (s : LuaDesktops) (gc : Collector) (pushed : List (GUID × VDeskTable))
    (span : List VDesktop) : pushed <+: (pushSpan s gc pushed span).1 := by
  induction span generalizing s pushed with
  | nil => exact List.prefix_refl _
  | cons d span ih => exact (List.prefix_append _ _).trans (ih ..)

theorem pushSpan_length (s : LuaDesktops) (gc : Collector) (pushed : List (GUID × VDeskTable))
    (span : List VDesktop) :
    (pushSpan s gc pushed span).1.length = pushed.length + span.length := by
  induction span generalizing s pushed with
  | nil => rfl
  | cons d span ih =>
    rw [pushSpan, ih, List.length_append, List.length_singleton, List.length_cons]
    omega

theorem pushSpan_target (s : LuaDesktops) (gc : Collector) (pushed : List (GUID × VDeskTable))
    (span : List VDesktop) : (pushSpan s gc pushed span).2.target = s.target := by
  induction span generalizing s pushed with
  | nil => rfl
  | cons d span ih => rw [pushSpan, ih, pushVdesk_target]

section LeftAt

variable {c : WeakCache Ptr VDeskTable} {n : Nat}

/-- What the cache has for `d` after the collection before push `n` is left at that push. -/
theorem leftAt_self
    (hcollected : ∀ table, c.get d.addr = some table ↔
      s.cache.get d.addr = some table ∧ (table ∈ s.held ∨ gc n table = false))
    (table : VDeskTable) : LeftAt s gc n n d table ↔ c.get d.addr = some table := by
  rw [hcollected, LeftAt]
  refine and_congr_right fun _ => or_congr_right ?_
  constructor
  · exact fun hall => hall n (Nat.le_refl n) (Nat.le_refl n)
  · intro hclear j hlo hhi
    have hj : j = n := by omega
    rw [hj]
    exact hclear

/-- One collection more; a push that leaves this record's table alone makes no difference. -/
theorem leftAt_succ
    (hcollected : ∀ table, c.get d.addr = some table ↔
      s.cache.get d.addr = some table ∧ (table ∈ s.held ∨ gc n table = false))
    {s' : LuaDesktops} (hget : s'.cache.get d.addr = c.get d.addr) (hheld : s'.held = s.held)
    (k : Nat) (table : VDeskTable) :
    LeftAt s' gc (n + 1) (n + 1 + k) d table ↔ LeftAt s gc n (n + (k + 1)) d table := by
  rw [LeftAt, LeftAt, hget, hheld, hcollected, and_assoc]
  refine and_congr_right fun _ => ?_
  by_cases hin : table ∈ s.held
  · exact iff_of_true ⟨Or.inl hin, Or.inl hin⟩ (Or.inl hin)
  · rw [or_iff_right hin, or_iff_right hin, or_iff_right hin]
    constructor
    · rintro ⟨hfirst, hrest⟩ j hlo hhi
      rcases Nat.eq_or_lt_of_le hlo with rfl | hlt
      · exact hfirst
      · exact hrest j hlt (by omega)
    · intro hall
      exact ⟨hall n (by omega) (by omega), fun j hlo hhi => hall j (by omega) (by omega)⟩

end LeftAt

/-- **One call.** Each record gets the table that the cache has left for it, or a new one with
the name of the record. -/
theorem pushSpan_at (h : ByRecord s.cache) (hspan : (span.map (·.addr)).Nodup)
    (hpushed : ∀ p ∈ pushed, p.2.vdesk ∉ span.map (·.addr)) {k : Nat} (hk : span[k]? = some d) :
    ∃ table, (pushSpan s gc pushed span).1[pushed.length + k]? = some (d.id, table) ∧
      table.vdesk = d.addr ∧
      (LeftAt s gc pushed.length (pushed.length + k) d table ∨
        (∀ old, ¬ LeftAt s gc pushed.length (pushed.length + k) d old) ∧ table.name = d.name) := by
  induction span generalizing s pushed k with
  | nil => simp at hk
  | cons first span ih =>
    rw [List.map_cons, List.nodup_cons] at hspan
    rw [pushSpan]
    -- the collector runs before the first push; what is pushed is under other addresses
    obtain ⟨hcollected, hget⟩ := h.collect (s.held ++ pushed.map (·.2)) (gc pushed.length)
    generalize s.cache.collect (s.held ++ pushed.map (·.2)) (gc pushed.length) = c
      at hcollected hget ⊢
    have hleft : ∀ d' ∈ first :: span, ∀ table, c.get d'.addr = some table ↔
        s.cache.get d'.addr = some table ∧ (table ∈ s.held ∨ gc pushed.length table = false) := by
      intro d' hd' table
      rw [hget, List.mem_append]
      refine and_congr_right fun hold => or_congr_left (or_iff_left ?_)
      intro hmem
      obtain ⟨p, hp, rfl⟩ := List.mem_map.mp hmem
      have hvdesk : p.2.vdesk = d'.addr := h.vdesk _ (WeakCache.mem_of_get hold)
      exact hpushed p hp (hvdesk ▸ List.mem_map_of_mem hd')
    obtain ⟨hnext, hvdesk, hother, hout⟩ :=
      pushVdesk_out (s := { s with cache := c }) hcollected first
    have hheld : (pushVdesk { s with cache := c } first).2.held = s.held := pushVdesk_held ..
    generalize pushVdesk { s with cache := c } first = out at hnext hvdesk hother hout hheld ⊢
    have hlength : (pushed ++ [(first.id, out.1)]).length = pushed.length + 1 :=
      List.length_append
    cases k with
    | zero =>
      have hfirst : first = d := by simpa using hk
      subst hfirst
      refine ⟨out.1, ?_, hvdesk, ?_⟩
      · obtain ⟨rest, hrest⟩ := pushSpan_prefix out.2 gc (pushed ++ [(first.id, out.1)]) span
        rw [← hrest, List.append_assoc]
        simp
      · have hself := leftAt_self (hleft first List.mem_cons_self)
        rw [Nat.add_zero]
        rcases hout with hout | ⟨hout, hname⟩
        · exact Or.inl ((hself out.1).mpr hout)
        · refine Or.inr ⟨?_, hname⟩
          intro old hold
          have hstays := (hself old).mp hold
          change c.get first.addr = none at hout
          rw [hout] at hstays
          cases hstays
    | succ k =>
      have hk' : span[k]? = some d := by simpa using hk
      have hd : d ∈ span := List.mem_of_getElem? hk'
      have hne : d.addr ≠ first.addr := by
        intro heq
        exact hspan.1 (heq ▸ List.mem_map_of_mem hd)
      have hpushed' : ∀ p ∈ pushed ++ [(first.id, out.1)], p.2.vdesk ∉ span.map (·.addr) := by
        rw [List.forall_mem_append, List.forall_mem_singleton]
        refine ⟨?_, by rw [hvdesk]; exact hspan.1⟩
        intro p hp hmem
        exact hpushed p hp (List.mem_cons_of_mem _ hmem)
      have hiff := leftAt_succ (hleft d (List.mem_cons_of_mem _ hd)) (hother _ hne) hheld k
      obtain ⟨table, hat, haddr, hcase⟩ := ih hnext hspan.2 hpushed' hk'
      rw [hlength] at hat hcase
      refine ⟨table, ?_, haddr, ?_⟩
      · rw [← hat]
        congr 1
        omega
      · rcases hcase with hold | ⟨hnone, hname⟩
        · exact Or.inl ((hiff table).mp hold)
        · exact Or.inr ⟨fun old hold => hnone old ((hiff old).mpr hold), hname⟩

end Push

/-! ## Names -/

/-- The name that an event carries. -/
def eventDesktop : Option WMEvent → Option String
  | some (.uniwm _ raw) => raw.objectAsStr "desktop"
  | _ => none

/-- A `VDESKTOP_CHANGED` event carries the name of the record. -/
theorem eventDesktop_notify (current : Option VDesktop) (source : VDesktopChangeSource) :
    eventDesktop (notifyVdeskChanged true true current source) = some (winVdeskName current) := rfl

/-- A table that was returned has the name of its desktop, as an event sent now would. -/
def NamedRight (s : LuaDesktops) (p : GUID × VDeskTable) : Prop :=
  ∃ d ∈ s.target.items, d.id = p.1 ∧ d.addr = p.2.vdesk ∧ p.2.name = winVdeskName (some d) ∧
    ∀ source, eventDesktop (notifyVdeskChanged true true (some d) source) = some p.2.name

/-- All tables that a call returns are named right. -/
def ReturnsNamed (s : LuaDesktops) (call : DesktopCall) : Prop :=
  ∀ p ∈ (s.step call).2, NamedRight (s.step call).1 p

/-- What the cache has left for a desktop that a call pushes was made under its name. -/
def NamesKept (s : LuaDesktops) (call : DesktopCall) : Prop :=
  ∀ k d, (call.records s.target).1[k]? = some d → ∀ table, LeftAt s call.collector 0 k d table →
    table.name = d.name

section Step

variable {s : LuaDesktops} {live : List VDeskTable} {issued : List (GUID × VDeskTable)}
  {seen : List DesktopElement} {call : DesktopCall}

theorem Tables.byRecord (h : Tables s live issued seen) : ByRecord s.cache := by
  refine ⟨h.interned.keys, ?_⟩
  intro e he
  obtain ⟨p, -, rfl⟩ := List.mem_map.mp (h.interned.cached e he)
  rfl

/-- A call returns the tables of the records that it pushes. -/
theorem step_pushes (s : LuaDesktops) (call : DesktopCall) :
    (s.step call).2 = (pushSpan { s with target := (call.records s.target).2 } call.collector []
        (call.records s.target).1).1 ∧
      (s.step call).1.target = (call.records s.target).2 := by
  have htarget : ∀ t gc span, (pushSpan { s with target := t } gc [] span).2.target = t := by
    intro t gc span
    rw [pushSpan_target]
  cases call with
  | forget dropped => exact ⟨rfl, rfl⟩
  | collect cleared => exact ⟨rfl, rfl⟩
  | list arr gc => exact ⟨rfl, htarget ..⟩
  | current o gc => exact ⟨rfl, htarget ..⟩
  | create created arr span gc => exact ⟨rfl, htarget ..⟩
  | refresh arr => exact ⟨rfl, htarget ..⟩

/-- No record is pushed twice by a call. -/
theorem records_nodup (hsound : Sound seen (call.records s.target).2.items) :
    ((call.records s.target).1.map (·.addr)).Nodup := by
  have hone : ∀ (t : Target) (vdesk : Option Ptr), ((derefVdesk t vdesk).map (·.addr)).Nodup := by
    intro t vdesk
    rw [derefVdesk]
    cases vdesk.bind fun p => t.items.find? (·.addr = p) with
    | none => exact List.nodup_nil
    | some d => exact List.nodup_singleton _
  cases call with
  | list arr gc =>
    simp only [DesktopCall.records, lVdeskList, winGetVdesk] at hsound ⊢
    split
    · exact hsound.addrs
    · exact List.nodup_nil
  | current o gc => exact hone ..
  | create created arr span gc =>
    simp only [DesktopCall.records]
    split
    · exact List.nodup_nil
    · exact hone ..
  | refresh arr => exact List.nodup_nil
  | forget dropped => exact List.nodup_nil
  | collect cleared => exact List.nodup_nil

/-- **One step.** -/
theorem Tables.returnsNamed_iff (h : Tables s s.held issued seen)
    (hFresh : call.Fresh s.target) : ReturnsNamed s call ↔ NamesKept s call := by
  obtain ⟨hreturned, htarget⟩ := step_pushes s call
  obtain ⟨hgrows, hrecords⟩ := DesktopCall.records_grow hFresh
    (fun e he => List.mem_append_right seen he)
  obtain ⟨hsound, -⟩ := hgrows (h.sound.mono call.elements)
  have hat := fun k d => @pushSpan_at { s with target := (call.records s.target).2 }
    call.collector [] _ d h.byRecord (records_nodup hsound)
    (fun p hp => absurd hp List.not_mem_nil) k
  simp only [List.length_nil, Nat.zero_add] at hat
  rw [← hreturned] at hat
  have hlength : (s.step call).2.length = (call.records s.target).1.length := by
    rw [hreturned, pushSpan_length, List.length_nil, Nat.zero_add]
  constructor
  · intro hnamed k d hk table hleft
    obtain ⟨table', hreturn, -, hcase⟩ := hat k d hk
    rcases hcase with hleft' | ⟨hnone, -⟩
    · -- the table that was left is the one returned
      have heq : table = table' := Option.some.inj (hleft.1.symm.trans hleft'.1)
      obtain ⟨d', hd', hid, -, hname, -⟩ := hnamed _ (List.mem_of_getElem? hreturn)
      rw [htarget] at hd'
      have hsame : d' = d := List.inj_on_of_nodup_map hsound.ids hd'
        (hrecords d (List.mem_of_getElem? hk)) hid
      rw [heq, ← hsame]
      exact hname
    · exact absurd hleft (hnone table)
  · intro hkept p hp
    obtain ⟨k, hklt, hpk⟩ := List.getElem_of_mem hp
    rw [hlength] at hklt
    have hk := List.getElem?_eq_getElem hklt
    obtain ⟨table, hreturn, hvdesk, hcase⟩ := hat k _ hk
    have hpeq : p = ((call.records s.target).1[k].id, table) := by
      rw [← hpk]
      exact (List.getElem?_eq_some_iff.mp hreturn).2
    have hname : table.name = (call.records s.target).1[k].name := by
      rcases hcase with hleft | ⟨-, hnew⟩
      · exact hkept k _ hk table hleft
      · exact hnew
    rw [hpeq]
    refine ⟨(call.records s.target).1[k], ?_, rfl, hvdesk.symm, hname, ?_⟩
    · rw [htarget]
      exact hrecords _ (List.getElem_mem hklt)
    · intro source
      rw [eventDesktop_notify, hname]
      rfl

end Step

/-- **Names in runs.** Let scripts call `list`, `current` and `create` in any order, with
refreshes, renamed desktops and collections of garbage in between. The tables that are returned
have the names of their desktops, and of the events for them, at every step exactly if at every
step what the Lua cache has left for a desktop to push was made under the name that this
desktop has. -/
theorem vdesk_names_iff {calls : List DesktopCall} (hFresh : FreshRun .init calls) :
    AtEachStep LuaDesktops.step (fun s call _ => ReturnsNamed s call) .init calls ↔
      AtEachStep LuaDesktops.step (fun s call _ => NamesKept s call) .init calls := by
  have hstep : ∀ past call rest, calls = past ++ call :: rest →
      (ReturnsNamed (final LuaDesktops.step .init past) call ↔
        NamesKept (final LuaDesktops.step .init past) call) := by
    intro past call rest hsplit
    have hpast : FreshRun .init past := by
      intro before i after hbefore
      exact hFresh before i (after ++ call :: rest) (by rw [hsplit, hbefore]; simp)
    exact (tables_run hpast).returnsNamed_iff (hFresh past call rest hsplit)
  constructor
  · intro h past call rest hsplit
    exact (hstep past call rest hsplit).mp (h past call rest hsplit)
  · intro h past call rest hsplit
    exact (hstep past call rest hsplit).mpr (h past call rest hsplit)

/-- The desktop 1 under a name. -/
def showsNamed (name : String) : Option (List DesktopElement) :=
  some [⟨some 11, 1, some name, true, some 101, true⟩]

/-- The script lists the desktop twice, and holds its table. -/
def listTwice (first second : String) : List DesktopCall :=
  [.list (showsNamed first) fun _ _ => true, .list (showsNamed second) fun _ _ => true]

theorem vdesk_names_iff_twice :
    AtEachStep LuaDesktops.step (fun s call _ => ReturnsNamed s call) .init
        (listTwice "mail" "mail") ↔
      AtEachStep LuaDesktops.step (fun s call _ => NamesKept s call) .init
        (listTwice "mail" "mail") := by
  have hfirst : RefreshFresh Target.init (showsNamed "mail") := by decide
  have hsecond : RefreshFresh
      (LuaDesktops.init.step (.list (showsNamed "mail") fun _ _ => true)).1.target
      (showsNamed "mail") := by decide
  exact vdesk_names_iff
    (atEachStep_cons.mpr ⟨hfirst, atEachStep_cons.mpr ⟨hsecond, atEachStep_nil⟩⟩)

/-- Renamed in between, the desktop comes with its old name. -/
theorem renamed_desktop_listed :
    ¬ AtEachStep LuaDesktops.step (fun s call _ => ReturnsNamed s call) .init
      (listTwice "mail" "news") := by
  intro h
  have hlast := h [.list (showsNamed "mail") fun _ _ => true]
    (.list (showsNamed "news") fun _ _ => true) [] rfl
  -- the table is the one that the script holds, the record has the new name
  obtain ⟨d, hd, -, -, hname, -⟩ := hlast (1, ⟨0, 101, "mail"⟩) (by decide)
  have hnews : ∀ d ∈ ((final LuaDesktops.step .init
      [.list (showsNamed "mail") fun _ _ => true]).step
        (.list (showsNamed "news") fun _ _ => true)).1.target.items, d.name = "news" := by
    decide
  rw [winVdeskName, Option.map_some, Option.getD_some, hnews d hd] at hname
  exact absurd hname (by decide)

end Uniwm
