import AccountPool.Binary64.Basic
import AccountPool.Binary64.Pair
import AccountPool.Binary64.Reading
import AccountPool.Binary64.Rounding
import AccountPool.Binary64.Shortest
import AccountPool.Command.Answer
import AccountPool.Command.Arguments
import AccountPool.Command.Invocation
import AccountPool.Command.Outcome
import AccountPool.Command.Session
import AccountPool.Command.Usage
import AccountPool.Config.Environment
import AccountPool.Config.Error
import AccountPool.Config.Expansion
import AccountPool.Config.File
import AccountPool.Config.Settings
import AccountPool.Database.Archive
import AccountPool.Database.Connection
import AccountPool.Database.Content
import AccountPool.Database.Fault
import AccountPool.Database.Image
import AccountPool.Database.Name
import AccountPool.Database.Opening
import AccountPool.Database.Sidecar
import AccountPool.Entity.Account
import AccountPool.Entity.Layout
import AccountPool.Entity.Lease
import AccountPool.Entity.Shape
import AccountPool.Files.Cause
import AccountPool.Files.Path
import AccountPool.Files.Private
import AccountPool.Files.Tree
import AccountPool.Json.Document
import AccountPool.Json.Fault
import AccountPool.Json.Ignored
import AccountPool.Json.Number
import AccountPool.Json.Printer
import AccountPool.Json.Reader
import AccountPool.Json.Value
import AccountPool.Main
import AccountPool.Pool.Accounts
import AccountPool.Pool.Clock
import AccountPool.Pool.Error
import AccountPool.Pool.Leases
import AccountPool.Pool.Lookup
import AccountPool.Pool.Program
import AccountPool.Pool.Settings
import AccountPool.Pool.Transition
import AccountPool.SortedMap
import AccountPool.Status
import AccountPool.Store.Backend
import AccountPool.Store.Column
import AccountPool.Store.Error
import AccountPool.Store.Faulty
import AccountPool.Store.Request
import AccountPool.Store.Scan
import AccountPool.Table.Condition
import AccountPool.Table.Key
import AccountPool.Table.Layout
import AccountPool.Table.Record
import AccountPool.Text.Blank
import AccountPool.Text.Integer
import AccountPool.Text.Percent
import AccountPool.Text.Quoted
import AccountPool.Text.Standalone
import AccountPool.Toml.Document
import AccountPool.Toml.Moment
import AccountPool.Toml.Reader
import AccountPool.Toml.Scalar
import AccountPool.Toml.Tree
import AccountPool.Toml.Value
import AccountPool.Proofs.Binary64.Rounding
import AccountPool.Proofs.Binary64.Finite
import AccountPool.Proofs.Text.Utf8
import AccountPool.Proofs.Json.Depth
import AccountPool.Proofs.Json.Taking
import AccountPool.Proofs.Json.Numbers
import AccountPool.Proofs.Json.Outline
import AccountPool.Proofs.Json.RoundTrip
import AccountPool.Proofs.Json.Levels
import AccountPool.Proofs.Json.Members
import AccountPool.Proofs.Json.Same
import AccountPool.Proofs.Store.Rows
import AccountPool.Proofs.Store.Exchange
import AccountPool.Proofs.Store.Equivalence
import AccountPool.Proofs.Store.Pages
import AccountPool.Proofs.Store.Drain
import AccountPool.Proofs.Store.Course
import AccountPool.Proofs.Store.Target
import AccountPool.Proofs.Store.KeyOrder
import AccountPool.Proofs.Store.Traversal
import AccountPool.Proofs.Store.Ending
import AccountPool.Proofs.Store.Nesting
import AccountPool.Proofs.Store.Alike
import AccountPool.Proofs.Store.Tables
import AccountPool.Proofs.Store.Texts
import AccountPool.Proofs.Store.IndexSearch
import AccountPool.Proofs.Store.Keeper
import AccountPool.Proofs.Store.Independence
import AccountPool.Proofs.Store.Legible
import AccountPool.Proofs.Store.OwnKey
import AccountPool.Proofs.Entity.Fields
import AccountPool.Proofs.Entity.Carried
import AccountPool.Proofs.Entity.Format
import AccountPool.Proofs.Entity.Printed
import AccountPool.Proofs.Entity.NormalForm
import AccountPool.Proofs.Pool.Machine
import AccountPool.Proofs.Pool.Edit
import AccountPool.Proofs.Pool.Files
import AccountPool.Proofs.Pool.Represents
import AccountPool.Proofs.Pool.Operations
import AccountPool.Proofs.Pool.Simulation
import AccountPool.Proofs.Pool.Requests
import AccountPool.Proofs.Pool.Scanning
import AccountPool.Proofs.Pool.Lookups
import AccountPool.Proofs.Pool.Nesting
import AccountPool.Proofs.Pool.Failure
import AccountPool.Proofs.Pool.Shows
import AccountPool.Proofs.Pool.Guarded
import AccountPool.Proofs.Pool.Accounting
import AccountPool.Proofs.Pool.LeaseRow
import AccountPool.Proofs.Pool.Rejections
import AccountPool.Proofs.Config.References
import AccountPool.Proofs.Config.Layers
import AccountPool.Proofs.Config.Integers
import AccountPool.Proofs.Files.Stores
import AccountPool.Proofs.Files.Names
import AccountPool.Proofs.Files.Places
import AccountPool.Proofs.Files.Prepared
import AccountPool.Proofs.Database.Stored
import AccountPool.Proofs.Database.Faults
import AccountPool.Proofs.Command.Answers
import AccountPool.Proofs.Command.Metadata
import AccountPool.Proofs.Command.Operations
import AccountPool.Proofs.Command.ExitCodes
import AccountPool.Proofs.Command.Grammar
import AccountPool.Proofs.Command.Session
import AccountPool.Proofs.Concurrent.Thread
import AccountPool.Proofs.Concurrent.Act
import AccountPool.Proofs.Concurrent.System
import AccountPool.Proofs.Concurrent.Transition
import AccountPool.Proofs.Concurrent.Removal
import AccountPool.Proofs.Concurrent.Clock
import AccountPool.Proofs.Concurrent.Stamps
