import Fileblock.Interaction.Prog
import Fileblock.Interaction.Hoare
import Fileblock.Interaction.Fallible
import Fileblock.Interaction.Part
import Fileblock.Interaction.Rely
import Fileblock.Interaction.Threads
import Fileblock.Go.Strings
import Fileblock.Go.Path
import Fileblock.Go.Fields
import Fileblock.Go.Join
import Fileblock.Go.Map
import Fileblock.Basic
import Fileblock.Crypt.Device
import Fileblock.Crypt.Prepare
import Fileblock.Crypt.Target
import Fileblock.Crypt.Rules
import Fileblock.Crypt.History
import Fileblock.Crypt.Rotation
import Fileblock.Node.Calm
import Fileblock.Node.Operation
import Fileblock.Node.Reconcile
import Fileblock.Node.Runs
import Fileblock.Node.Unstaged
import Fileblock.Loop.Reconcile
import Fileblock.Loop.Exact
import Fileblock.Loop.OnNode
import Fileblock.Monitor.Tick
import Fileblock.Monitor.Pace
import Fileblock.Monitor.Safety
import Fileblock.Monitor.OnNode
import Fileblock.Store.Identity
import Fileblock.Store.Context
import Fileblock.Controller.Request
import Fileblock.Controller.VolumeID
import Fileblock.Registry.Program
import Fileblock.Registry.Invariant
import Fileblock.Registry.Slots
import Fileblock.Registry.Contract
import Fileblock.Registry.Locked
import Fileblock.Registry.GetSpec
import Fileblock.Registry.Schedule
import Fileblock.Registry.Runs
import Fileblock.Registry.Staleness
import Fileblock.Registry.Live
import Fileblock.Image.Manager
import Fileblock.Controller.Serve
import Fileblock.Controller.World
import Fileblock.Controller.Retry
import Fileblock.Interaction.Schedule
import Fileblock.Controller.Expand
import Fileblock.Image.Created
import Fileblock.Node.Footprint
import Fileblock.Node.Published
import Fileblock.Node.ReadOnly
import Fileblock.Loop.State
import Fileblock.Go.Replace
import Fileblock.Store.Isolation
import Fileblock.Controller.Filed
import Fileblock.Controller.List
import Fileblock.Controller.Capacity
import Fileblock.Node.Sector
import Fileblock.Store.Options
import Fileblock.Store.SubDir
import Fileblock.Image.Undone
import Fileblock.Go.Bytes
import Fileblock.Mount.Octal
import Fileblock.Go.Runes
import Fileblock.Mount.Info
import Fileblock.Mount.Printed
import Fileblock.Mount.Inverse
import Fileblock.Node.Rows
import Fileblock.Node.Inside
import Fileblock.Controller.Inside
import Fileblock.Interaction.Commute
import Fileblock.Monitor.Order
import Fileblock.Controller.Gone
import Fileblock.Node.Others
import Fileblock.Node.Interleaved
import Fileblock.Node.Kept
import Fileblock.Node.Undone
import Fileblock.Node.Recovery
