import CellHost.Assembler
import CellHost.Cell
import CellHost.Clock
import CellHost.CommandLine
import CellHost.CommandLine.Options
import CellHost.Console
import CellHost.Decimal.Fixed
import CellHost.Driver
import CellHost.Entry
import CellHost.Extension
import CellHost.FileError
import CellHost.FileSystem
import CellHost.Image.Error
import CellHost.Image.Reader
import CellHost.Image.Words
import CellHost.Image.Writer
import CellHost.ImageFile
import CellHost.LineTable
import CellHost.Machine.Context
import CellHost.Machine.Effect
import CellHost.Machine.Natives
import CellHost.Machine.Registers
import CellHost.Machine.Run
import CellHost.Machine.World
import CellHost.MachineError
import CellHost.Main
import CellHost.Numeral
import CellHost.Opcode
import CellHost.Pool
import CellHost.Program
import CellHost.Proofs.Assembly.Boundaries
import CellHost.Proofs.Assembly.Handles
import CellHost.Proofs.Assembly.Lines
import CellHost.Proofs.Assembly.Linking
import CellHost.Proofs.Assembly.Listing
import CellHost.Proofs.Assembly.Progress
import CellHost.Proofs.Assembly.Saving
import CellHost.Proofs.CommandLine.Monitoring
import CellHost.Proofs.CommandLine.Reader
import CellHost.Proofs.CommandLine.Usage
import CellHost.Proofs.Driver.Abort
import CellHost.Proofs.Driver.Contexts
import CellHost.Proofs.Driver.Faults
import CellHost.Proofs.Driver.Fuel
import CellHost.Proofs.Driver.Isolation
import CellHost.Proofs.Driver.Naps
import CellHost.Proofs.Driver.Policy
import CellHost.Proofs.Driver.Snapshots
import CellHost.Proofs.Driver.Statistics
import CellHost.Proofs.Host.Addresses
import CellHost.Proofs.Host.Calls
import CellHost.Proofs.Host.Cells
import CellHost.Proofs.Host.Containment
import CellHost.Proofs.Host.ControlFlow
import CellHost.Proofs.Host.Footprint
import CellHost.Proofs.Host.FramePointer
import CellHost.Proofs.Host.Interface
import CellHost.Proofs.Host.Layout
import CellHost.Proofs.Host.LiveCells
import CellHost.Proofs.Host.Occurrence
import CellHost.Proofs.Host.StackTop
import CellHost.Proofs.Image.Canonical
import CellHost.Proofs.Image.Delimiting
import CellHost.Proofs.Image.Reading
import CellHost.Proofs.Image.RoundTrip
import CellHost.Proofs.Image.WithoutLines
import CellHost.Proofs.LineTable.Lookup
import CellHost.Proofs.LineTable.Order
import CellHost.Proofs.LineTable.Stable
import CellHost.Proofs.Machine.Abort
import CellHost.Proofs.Machine.Awake
import CellHost.Proofs.Machine.Bindings
import CellHost.Proofs.Machine.Callbacks
import CellHost.Proofs.Machine.Execution
import CellHost.Proofs.Machine.Fittings
import CellHost.Proofs.Machine.Frames
import CellHost.Proofs.Machine.Fuel
import CellHost.Proofs.Machine.Likeness
import CellHost.Proofs.Machine.Nesting
import CellHost.Proofs.Machine.Parking
import CellHost.Proofs.Machine.Refusal
import CellHost.Proofs.Machine.Shift
import CellHost.Proofs.Machine.Start
import CellHost.Proofs.Machine.Step
import CellHost.Proofs.Machine.Trail
import CellHost.Proofs.Machine.Transparency
import CellHost.Proofs.Registry.Bounded
import CellHost.Proofs.Registry.Maps
import CellHost.Proofs.Report.FaultLines
import CellHost.Proofs.Report.SavedLines
import CellHost.Proofs.Session.Bindings
import CellHost.Proofs.Session.Creation
import CellHost.Proofs.Session.HighWater
import CellHost.Proofs.Session.Reuse
import CellHost.Proofs.Settings.Overrides
import CellHost.Proofs.Settings.Spellings
import CellHost.Proofs.Timer.Driven
import CellHost.Proofs.Timer.Events
import CellHost.Proofs.Timer.Idling
import CellHost.Proofs.Timer.Log
import CellHost.Proofs.Timer.Safety
import CellHost.Registries
import CellHost.Registry
import CellHost.Report
import CellHost.Session
import CellHost.Settings
import CellHost.Tag
import CellHost.Text.Blank
import CellHost.Text.Utf8
import CellHost.Timer
import CellHost.Toml.Document
import CellHost.Toml.Scalars
import CellHost.Toml.Statement
import CellHost.Toml.Strings
import CellHost.Toml.Value
import CellHost.Usage
