import GuestMemory.Data.Text
import GuestMemory.Device.Simple
import GuestMemory.Process
import GuestMemory.X64.Guarded
import GuestMemory.Proofs.Since
import GuestMemory.Proofs.Process.Route
import GuestMemory.Proofs.Maps.Addresses
import GuestMemory.Proofs.Maps.Ranges
import GuestMemory.Proofs.Space.Wiring
import GuestMemory.Proofs.Maps.Pages
import GuestMemory.Proofs.Maps.Atlas
import GuestMemory.Proofs.Maps.Survey
import GuestMemory.Proofs.Maps.Backing
import GuestMemory.Proofs.Access.Bytewise
import GuestMemory.Proofs.Access.Flat
import GuestMemory.Proofs.Cache.TlbMatch
import GuestMemory.Proofs.Cache.Slots
import GuestMemory.Proofs.Cache.Coherence
import GuestMemory.Proofs.Cache.Accesses
import GuestMemory.Proofs.Access.Cached
import GuestMemory.Proofs.Maps.Regions
import GuestMemory.Proofs.Window.Mirror
import GuestMemory.Proofs.Window.Follow
import GuestMemory.Proofs.Window.Lockstep
import GuestMemory.Proofs.Window.Range
import GuestMemory.Proofs.Footprint.Confined
import GuestMemory.Proofs.Footprint.CacheWork
import GuestMemory.Proofs.Footprint.SpaceWork
import GuestMemory.Proofs.Footprint.Bounds
import GuestMemory.Proofs.Footprint.Tags
import GuestMemory.Proofs.Footprint.Safety
import GuestMemory.Proofs.Space.Install
import GuestMemory.Proofs.Cache.Unique
import GuestMemory.Proofs.Access.Keeps
import GuestMemory.Proofs.Access.Unique
import GuestMemory.Proofs.Cache.Aligned
import GuestMemory.Proofs.Access.Shown
import GuestMemory.Proofs.Access.Plain
import GuestMemory.Proofs.Access.Faults
import GuestMemory.Proofs.Access.Reread
import GuestMemory.Proofs.X64.Stack
import GuestMemory.Proofs.X64.Runs
import GuestMemory.Proofs.X64.Thunk
import GuestMemory.Proofs.X64.Entry
import GuestMemory.Proofs.X64.FastPath
import GuestMemory.Proofs.X64.Diverted
import GuestMemory.Proofs.X64.WindowEnd
import GuestMemory.Proofs.X64.BaseRegister
import GuestMemory.Proofs.X64.Layout
import GuestMemory.Proofs.X64.Patching
import GuestMemory.Proofs.X64.Detour
import GuestMemory.Proofs.Site.Ledger
import GuestMemory.Proofs.Window.Changes
import GuestMemory.Proofs.Window.Record
import GuestMemory.Proofs.Window.Lookup
import GuestMemory.Proofs.Window.Inverse
import GuestMemory.Proofs.Handlers.Pool
import GuestMemory.Proofs.Handlers.Composition
import GuestMemory.Proofs.Handlers.Named
import GuestMemory.Proofs.Handlers.Roster
import GuestMemory.Proofs.Handlers.Serving
import GuestMemory.Proofs.Space.Changes
import GuestMemory.Proofs.Space.Reset
import GuestMemory.Proofs.Access.Parts
import GuestMemory.Proofs.Cache.Schedule
import GuestMemory.Proofs.Cache.Evictions
import GuestMemory.Proofs.Cache.Readback
import GuestMemory.Proofs.Window.Protection
import GuestMemory.Proofs.Window.Remap
import GuestMemory.Proofs.Window.Overlap
import GuestMemory.Proofs.Maps.Partition
import GuestMemory.Proofs.Layout.Zones
import GuestMemory.Proofs.Layout.Standard
import GuestMemory.Proofs.Layout.Boot
import GuestMemory.Proofs.Space.Bystanders
import GuestMemory.Proofs.Access.Latch
import GuestMemory.Proofs.Access.Delivery
import GuestMemory.Proofs.Stepwise.Basic
import GuestMemory.Proofs.Stepwise.Maps
import GuestMemory.Proofs.Stepwise.Window
import GuestMemory.Proofs.Stepwise.Calls
