import Uniwm.Base.Machine
import Uniwm.Base.Scan
import Uniwm.Base.Utf16
import Uniwm.Base.Relay
import Uniwm.Base.Newcomers
import Uniwm.Base.Account
import Uniwm.Base.Keyed
import Uniwm.Base.WeakCache
import Uniwm.Base.CommandLine
import Uniwm.Model.Keys
import Uniwm.Model.KeybindArray
import Uniwm.Model.Combos
import Uniwm.Model.Suppressing
import Uniwm.Model.Windows
import Uniwm.Model.System
import Uniwm.Model.Script
import Uniwm.Model.Bindings
import Uniwm.Model.World
import Uniwm.Model.Desktops
import Uniwm.Model.Names
import Uniwm.Model.Creation
import Uniwm.Model.Ownership
import Uniwm.Model.Tables
import Uniwm.Model.Session
import Uniwm.Model.Functions
import Uniwm.Model.Lifetime
import Uniwm.Model.Spawn
import Uniwm.Model.Supervisor
import Uniwm.Model.Worker
import Uniwm.Keys.Combos
import Uniwm.Keys.Suppression
import Uniwm.Keys.SuppressTable
import Uniwm.Keys.Suppressing
import Uniwm.Keys.Firing
import Uniwm.Keys.Termination
import Uniwm.Keys.Trace
import Uniwm.Keys.Lag
import Uniwm.Keys.Bindings
import Uniwm.Keys.Replacing
import Uniwm.Keys.Functions
import Uniwm.Keys.FunctionMap
import Uniwm.Windows.Registry
import Uniwm.Windows.Seeding
import Uniwm.Windows.Release
import Uniwm.Windows.Mute
import Uniwm.Windows.Reactive
import Uniwm.Windows.Polling
import Uniwm.Windows.Watching
import Uniwm.Windows.Subscription
import Uniwm.Windows.References
import Uniwm.Windows.Focus
import Uniwm.Windows.Sweep
import Uniwm.Windows.Latency
import Uniwm.Windows.Entries
import Uniwm.Windows.Reported
import Uniwm.Desktops.Refresh
import Uniwm.Desktops.Creation
import Uniwm.Desktops.Names
import Uniwm.Desktops.Span
import Uniwm.Desktops.Current
import Uniwm.Desktops.Ownership
import Uniwm.Desktops.Tables
import Uniwm.Desktops.TableNames
import Uniwm.Desktops.Session
import Uniwm.Desktops.Listing
import Uniwm.Desktops.Layout
import Uniwm.Desktops.Lifetime
import Uniwm.Spawn.CommandLine
import Uniwm.Spawn.Loop
import Uniwm.Spawn.Arguments
import Uniwm.Spawn.Worker
import Uniwm.Spawn.Capacity
import Uniwm.Spawn.Supervision
import Uniwm.Spawn.Rounds
import Uniwm.Spawn.Orphans
