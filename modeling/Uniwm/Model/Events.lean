import Uniwm.Base.Slots
import Uniwm.Base.Flags

/-!
# uniwm — events of the input queue

The events that travel through the queue of the mc library: the global keyboard
events that its hook queues, and the events of the `UNIWM` group that this
program registers and pushes, which carry a JSON payload.

* `MCKey` and handles are the library's numbers; `0` is the null pointer.
* `Json` is as much of the library's JSON value as the payloads use. The
  constructors and readers follow the calls made on it: `setObject`, `addU64`,
  `addStr`, `addNull` build a payload member by member, `objectAsU64` reads a
  member back and gives `0` for a missing or null one, `objectAsStr` reads a text.
-/

namespace Uniwm

/-- A key of the mc library; the keys it knows lie below `MC_KEY_MAX`. -/
abbrev MCKey := Nat

/-- The identity of a window: the value of its win32 `HWND`. -/
abbrev Identity := UInt64

/-- An address, `0` for `NULL`. -/
abbrev Ptr := Nat

/-! ## JSON payloads -/

inductive Json where
  | null
  | u64 (value : UInt64)
  | str (value : String)
  | object (members : List (String × Json))

namespace Json

/-- `mc_json_set_object` -/
def setObject : Json := object []

/-- Append a member to an object. -/
def add (raw : Json) (name : String) (value : Json) : Json :=
  match raw with
  | object members => object (members ++ [(name, value)])
  | raw => raw

/-- `mc_json_object_add_u64` -/
def addU64 (raw : Json) (value : UInt64) (name : String) : Json := raw.add name (u64 value)

/-- `mc_json_object_add_str` -/
def addStr (raw : Json) (value : String) (name : String) : Json := raw.add name (str value)

/-- `mc_json_object_add_new` followed by `mc_json_set_null` -/
def addNull (raw : Json) (name : String) : Json := raw.add name null

/-- `mc_json_object_as_u64` -/
def objectAsU64 (raw : Json) (name : String) : UInt64 :=
  match raw with
  | object members =>
    match members.find? (·.1 = name) with
    | some (_, u64 value) => value
    | _ => 0
  | _ => 0

/-- The text of a member, if it is one. -/
def objectAsStr (raw : Json) (name : String) : Option String :=
  match raw with
  | object members =>
    match members.find? (·.1 = name) with
    | some (_, str value) => some value
    | _ => none
  | _ => none

end Json

/-! ## Events -/

/-- `WM_WindowChange` -/
inductive WindowChange where
  | opened
  | created
  | destroyed
  | focused
deriving DecidableEq, Repr

/-- `WM_UniwmEvent`; `eventCount` is the number of events of the group. -/
inductive UniwmEvent where
  | vdesktopChanged
  | windowCreated
  | windowDestroyed
  | windowFocused
  | eventCount
deriving DecidableEq, Repr

/-- `MC_WMEventType`: `none` is `MC_WME_NONE`, `uniwm` a type of the registered
group (`uniwm_event_offset + which`), `other` any other event of the library. -/
inductive WMEventType where
  | none
  | globalKeyDown
  | globalKeyUp
  | uniwm (which : UniwmEvent)
  | other
deriving DecidableEq, Repr

/-- `MC_WMEvent`, with the part of its union that its type selects. -/
inductive WMEvent where
  | globalKeyDown (key : MCKey)
  | globalKeyUp (key : MCKey)
  | uniwm (which : UniwmEvent) (raw : Json)
  | other

def WMEvent.type : WMEvent → WMEventType
  | globalKeyDown _ => .globalKeyDown
  | globalKeyUp _ => .globalKeyUp
  | uniwm which _ => .uniwm which
  | other => .other

/-- `WM_Error` -/
inductive WMError where
  | ok
  | unknown
  | invalidArgument
  | outOfMemory
  | notImplemented
deriving DecidableEq, Repr

end Uniwm
