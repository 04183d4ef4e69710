import Uniwm.Model.Events
import Uniwm.Base.CommandLine
import Mathlib.Logic.Function.Basic

/-!
# uniwm — starting the worker process

`wm_proc_spawn_self` of `libuniwm`'s `proc_win.c`: the command line that it builds in a
fixed buffer (`appendQuoted`, `buildCommandLine`), the job that is to end the worker with
its supervisor (`ensureJob`), and the calls that start the worker (`wmProcSpawnSelf`).

* A `wchar_t` array is what each of its positions holds. It is not bounded here, so a store
  past its capacity would show; the text before the first store is arbitrary.
* `SpawnSystem` gives what the system's calls answer during one spawn. The conversion to
  wide characters is the system's and stays a parameter.
* `calls` is a ghost: the calls made on processes and handles, in order.
-/

namespace Uniwm

open Base

/-- A `wchar_t` of win32. -/
abbrev WChar := UInt16

/-- A `HANDLE`, not `NULL`. -/
abbrev Handle := Nat

/-- `COMMAND_LINE_CAP` -/
abbrev commandLineCap : Nat := 32768

/-- `ARG_WIDE_CAP` -/
abbrev argWideCap : Nat := 4096

/-- `MAX_PATH` -/
abbrev maxPath : Nat := 260

namespace WChar

/-- `L'"'` -/
abbrev quote : WChar := 34

/-- `L'\\'` -/
abbrev backslash : WChar := 92

/-- `L' '` -/
abbrev space : WChar := 32

/-- `L'\t'` -/
abbrev tab : WChar := 9

end WChar

/-! ## The command line -/

/-- A `wchar_t` array and how much of it is text. -/
structure WText where
  buf : Nat → WChar
  len : Nat

/-- `buf[i++] = c` -/
def WText.put (t : WText) (c : WChar) : WText := ⟨Function.update t.buf t.len c, t.len + 1⟩

/-- The loop of `append_quoted` over the characters of a string. -/
def appendChars (cap : Nat) (t : WText) : List WChar → WText
  | [] => t
  | c :: s =>
    -- room for the character, a backslash before it, and the closing quote
    if c ≠ 0 ∧ t.len + 2 < cap then
      let t := if c = .quote then t.put .backslash else t
      appendChars cap (t.put c) s
    else t

/-- `append_quoted` -/
def appendQuoted (cap : Nat) (t : WText) (s : List WChar) : WText :=
  let t := if t.len + 1 < cap then t.put .quote else t
  let t := appendChars cap t s
  if t.len + 1 < cap then t.put .quote else t

/-- What the system's calls answer during one spawn. -/
structure SpawnSystem where
  /-- the path of the executable, `[]` if `GetModuleFileNameW` fails -/
  moduleFileName : List WChar
  /-- the conversion from UTF-8 to wide characters -/
  wide : List UInt8 → Option (List WChar)
  /-- the array `cmdline` before the first store -/
  cmdline : Nat → WChar
  /-- `CreateJobObjectW` -/
  createJob : Option Handle
  /-- `SetInformationJobObject` -/
  limitJob : Bool
  /-- `CreateProcessW`: the process and its thread -/
  createProcess : Option (Handle × Handle)
  /-- `malloc` -/
  malloc : Bool

/-- `MultiByteToWideChar` into `ARG_WIDE_CAP` characters, the last of them `NUL`. -/
def multiByteToWideChar (wide : List UInt8 → Option (List WChar)) (arg : List UInt8) :
    Option (List WChar) :=
  (wide arg).filter fun warg => warg.length < argWideCap

/-- The loop of `wm_proc_spawn_self` over the arguments. -/
def appendArgs (wide : List UInt8 → Option (List WChar)) (t : WText) :
    List (List UInt8) → Except WMError WText
  | [] => .ok t
  | arg :: args =>
    match multiByteToWideChar wide arg with
    | none => .error .unknown
    | some warg =>
      let t := if t.len + 1 < commandLineCap then t.put .space else t
      appendArgs wide (appendQuoted commandLineCap t warg) args

/-- `cmdline[len < COMMAND_LINE_CAP ? len : COMMAND_LINE_CAP - 1] = 0` -/
def WText.terminate (t : WText) : Nat → WChar :=
  Function.update t.buf (if t.len < commandLineCap then t.len else commandLineCap - 1) 0

/-- The string that starts at position `i`, of `n` characters at most. -/
def wideString (buf : Nat → WChar) (i : Nat) : Nat → List WChar
  | 0 => []
  | n + 1 => if buf i = 0 then [] else buf i :: wideString buf (i + 1) n

/-- The first half of `wm_proc_spawn_self`: the string at `cmdline`. -/
def buildCommandLine (w : SpawnSystem) (args : List (List UInt8)) :
    Except WMError (List WChar) :=
  -- a path too long is cut at MAX_PATH characters, and their number is returned
  let self := w.moduleFileName.take maxPath
  if self.length = 0 ∨ self.length ≥ maxPath then .error .unknown
  else
    match appendArgs w.wide (appendQuoted commandLineCap ⟨w.cmdline, 0⟩ self) args with
    | .error e => .error e
    | .ok t => .ok (wideString t.terminate 0 commandLineCap)

/-! ## The process -/

/-- A `WM_Child` -/
structure Child where
  process : Handle
  thread : Handle
deriving DecidableEq, Repr

/-- A call made on a process or a handle. -/
inductive ProcCall where
  | createProcess (commandLine : List WChar)
  | assignToJob (job process : Handle)
  | resumeThread (thread : Handle)
  | terminateProcess (process : Handle)
  | closeHandle (handle : Handle)
deriving DecidableEq

/-- The statics of `ensure_job`. -/
structure Job where
  job : Option Handle
  tried : Bool
deriving DecidableEq, Repr

def Job.init : Job := ⟨none, false⟩

/-- `ensure_job` -/
def ensureJob (w : SpawnSystem) (j : Job) : Job × List ProcCall :=
  if j.tried then (j, [])
  else
    match w.createJob with
    | none => ({ j with tried := true }, [])
    | some created =>
      -- a job that would not end its processes is given up
      if w.limitJob then (⟨some created, true⟩, [])
      else ({ j with tried := true }, [.closeHandle created])

/-- What a spawn returns and leaves behind: `child` is what it writes to `*out`. -/
structure Spawned where
  error : WMError
  child : Option Child
  job : Job
  calls : List ProcCall

/-- `wm_proc_spawn_self`, called with an `out` that is `NULL` or not. -/
def wmProcSpawnSelf (w : SpawnSystem) (j : Job) (args : List (List UInt8)) (out : Bool) :
    Spawned :=
  if !out then ⟨.invalidArgument, none, j, []⟩
  else
    match buildCommandLine w args with
    | .error e => ⟨e, none, j, []⟩
    | .ok cmdline =>
      let (j, jobCalls) := ensureJob w j
      let calls := jobCalls ++ [.createProcess cmdline]
      -- created suspended, so that it joins the job before it runs
      match w.createProcess with
      | none => ⟨.unknown, none, j, calls⟩
      | some (process, thread) =>
        let assigned := (j.job.map fun job => ProcCall.assignToJob job process).toList
        let calls := calls ++ assigned ++ [.resumeThread thread]
        if w.malloc then ⟨.ok, some ⟨process, thread⟩, j, calls⟩
        else
          ⟨.outOfMemory, none, j,
            calls ++ [.terminateProcess process, .closeHandle thread, .closeHandle process]⟩

/-- The command line that a process is created with. -/
def ProcCall.commandLine : ProcCall → Option (List WChar)
  | createProcess line => some line
  | _ => none

/-- The command lines that processes are created with. -/
def Spawned.commandLines (r : Spawned) : List (List WChar) :=
  r.calls.filterMap ProcCall.commandLine

end Uniwm
