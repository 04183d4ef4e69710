import Uniwm.Base.WeakCache
import Uniwm.Model.Desktops

/-!
# uniwm — the Lua tables of virtual desktops

`vdesktop:list()`, `:current()` and `:create()` of `libuniwm-lua/src/uniwm-lua.c`: each gives
tables for desktops, taken from a cache with weak values whose keys are the addresses of the
records (`pushVdesk`).

* A table is known by the number `ident`. `vdesk` is the upvalue of its methods.
* The collector may run whenever a table is about to be pushed, and clears what neither the
  script nor the call in hand holds. Which of that it clears is up to it.
* `held` is what the script still holds, and `made` counts the tables created.
-/

namespace Uniwm

open Base

/-- A table made by `push_vdesk`. -/
structure VDeskTable where
  ident : Nat
  vdesk : Ptr
  name : String
deriving DecidableEq, Repr

/-- The cache of desktops, the registry table `libuniwm.vdesktops`, and the script. -/
structure LuaDesktops where
  target : Target
  cache : WeakCache Ptr VDeskTable
  held : List VDeskTable
  made : Nat

def LuaDesktops.init : LuaDesktops := ⟨Target.init, WeakCache.empty, [], 0⟩

/-- Which tables the collector clears if it can, before the `i`-th push of a call. -/
abbrev Collector := Nat → VDeskTable → Bool

/-- `push_vdesk` -/
def pushVdesk (s : LuaDesktops) (d : VDesktop) : VDeskTable × LuaDesktops :=
  match s.cache.get d.addr with
  | some table => (table, s)
  | none =>
    let table : VDeskTable := ⟨s.made, d.addr, d.name⟩
    (table, { s with cache := s.cache.put d.addr table, made := s.made + 1 })

/-- `push_vdesk` for each record of the span; the tables `pushed` so far are on the stack. Each
table comes with the id of its record. -/
def pushSpan (s : LuaDesktops) (gc : Collector) :
    List (GUID × VDeskTable) → List VDesktop → List (GUID × VDeskTable) × LuaDesktops
  | pushed, [] => (pushed, s)
  | pushed, d :: span =>
    let live := s.held ++ pushed.map (·.2)
    let table := pushVdesk { s with cache := s.cache.collect live (gc pushed.length) } d
    pushSpan table.2 gc (pushed ++ [(d.id, table.1)]) span

/-- The record that a checked pointer points to. -/
def derefVdesk (t : Target) (vdesk : Option Ptr) : List VDesktop :=
  (vdesk.bind fun p => t.items.find? (·.addr = p)).toList

/-- A call of a script, or what happens between its calls. -/
inductive DesktopCall where
  | list (arr : Option (List DesktopElement)) (gc : Collector)
  | current (o : CurrentOutcome) (gc : Collector)
  | create (created : Option GUID) (arr span : Option (List DesktopElement)) (gc : Collector)
  -- a refresh by any other function
  | refresh (arr : Option (List DesktopElement))
  -- the script lets go of tables
  | forget (dropped : VDeskTable → Bool)
  | collect (cleared : VDeskTable → Bool)

/-- The target after the calls to it, and the records to push. -/
def DesktopCall.records (t : Target) : DesktopCall → List VDesktop × Target
  | list arr _ => lVdeskList t arr
  | current o _ =>
    let current := lVdeskCurrent t o
    (derefVdesk current.2 current.1, current.2)
  | create created arr span _ =>
    let created := winVdeskCreate t created arr
    match created.1 with
    -- the call raises an error
    | none => ([], created.2)
    | some d =>
      let checked := pushVdeskPtr created.2 span (some d.addr)
      (derefVdesk checked.2 checked.1, checked.2)
  | refresh arr => ([], (Uniwm.refresh t arr).2)
  | forget _ => ([], t)
  | collect _ => ([], t)

/-- The collector of a call. -/
def DesktopCall.collector : DesktopCall → Collector
  | list _ gc => gc
  | current _ gc => gc
  | create _ _ _ gc => gc
  | refresh _ => fun _ _ => false
  | forget _ => fun _ _ => false
  | collect _ => fun _ _ => false

/-- One step: the tables that a call returns, with the ids of their records. The script holds
them from then on. -/
def LuaDesktops.step (s : LuaDesktops) (call : DesktopCall) :
    LuaDesktops × List (GUID × VDeskTable) :=
  match call with
  | .forget dropped => ({ s with held := s.held.filter fun t => !dropped t }, [])
  | .collect cleared => ({ s with cache := s.cache.collect s.held cleared }, [])
  | call =>
    let records := call.records s.target
    let pushed := pushSpan { s with target := records.2 } call.collector [] records.1
    ({ pushed.2 with held := pushed.2.held ++ pushed.1.map (·.2) }, pushed.1)

/-- What a method of a table acts on after a refresh that gives `arr`: `checked_vdesk` for the
upvalue, and the record there. -/
def methodVdesk (t : Target) (arr : Option (List DesktopElement)) (table : VDeskTable) :
    Option VDesktop :=
  let checked := checkedVdesk t arr table.vdesk
  checked.1.bind fun p => checked.2.items.find? (·.addr = p)

end Uniwm
