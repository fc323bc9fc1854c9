import Arcal.Lib.InPlace
import Arcal.Lib.Words
import Arcal.Schema.Model
import Arcal.Schema.Layout
import Arcal.Lib.Hex
import Arcal.Lib.Utf8
import Arcal.Lib.BigEndian
import Arcal.Lib.Decimal
import Arcal.Lib.JsonText
import Arcal.Lib.JsonRender
import Arcal.Lib.JsonString
import Arcal.Base.Value
import Arcal.Accessor.Impl
import Arcal.Cdr.Primitives
import Arcal.Cdr.Codec
import Arcal.Cdr.RoundTrip
import Arcal.Cdr.Truncation
import Arcal.Cdr.Registry
import Arcal.Cdr.Externalizer
import Arcal.Cdr.Blank
import Arcal.Lib.Guarded
import Arcal.Cdr.Bounds
import Arcal.Lib.Focus
import Arcal.Accessor.Enum
import Arcal.Lib.Store
import Arcal.Accessor.Copy
import Arcal.Json.Primitives
import Arcal.Json.Codec
import Arcal.Json.Tree
import Arcal.Json.RoundTrip
import Arcal.Json.Names
import Arcal.Json.Externalizer
import Arcal.Json.Integers
import Arcal.Lib.Verdict
import Arcal.Base.Fault
import Arcal.Base.UuidText
import Arcal.Base.UuidViews
import Arcal.Json.Faults
import Arcal.Cdr.Faults
import Arcal.Externalizer.ReadErrors
import Arcal.Externalizer.Copy
import Arcal.Lib.Transition
import Arcal.Dds.Dispatch
import Arcal.Dds.Polling
import Arcal.Dds.Machine
import Arcal.Dds.Locking
import Arcal.Dds.Deadlock
import Arcal.Dds.Accounting
import Arcal.Dds.Removal
import Arcal.Lib.Table
import Arcal.Lacal.Protocol
import Arcal.Lacal.Glob
import Arcal.Lacal.Session
import Arcal.Lacal.Replies
import Arcal.Lacal.Fields
import Arcal.Lacal.Effect
import Arcal.Lacal.Deliver
import Arcal.Lacal.Machine
import Arcal.Lacal.Uninterrupted
import Arcal.Lacal.Announce
import Arcal.Lacal.Streams
import Arcal.Lacal.Ids
import Arcal.Lacal.WriteQueue
import Arcal.Lib.Holds
import Arcal.Config.CalConfig
import Arcal.Config.Resolve
import Arcal.Lib.Reorder
import Arcal.Config.Order
import Arcal.Config.Fallback
import Arcal.Config.Listing
import Arcal.Dds.Status
import Arcal.Dds.Shutdown
import Arcal.Dds.Destroy
import Arcal.Lib.Worklist
import Arcal.Lib.Glob
import Arcal.Compiler.Subset
import Arcal.Compiler.Selection
import Arcal.Compiler.Reachable
import Arcal.Schema.Document
import Arcal.Compiler.Parser
import Arcal.Compiler.Content
import Arcal.Compiler.Enumerators
import Arcal.Compiler.Handlers
import Arcal.Compiler.Derived
import Arcal.Compiler.Files
import Arcal.Compiler.Includes
import Arcal.Compiler.Tags
import Arcal.Lib.Incremental
import Arcal.Compiler.Reruns
import Arcal.Lib.Significant
import Arcal.Lib.Printf
import Arcal.Json.Floats
import Arcal.Lib.JsonRefusal
import Arcal.Lib.JsonNesting
import Arcal.Json.Shown
import Arcal.Json.ReadBack
import Arcal.Json.Reprint
import Arcal.Externalizer.Container
import Arcal.Lacal.Publish
import Arcal.Lib.Simulation
import Arcal.Lib.Ownership
import Arcal.Accessor.BoundedList
import Arcal.Accessor.Stored
import Arcal.Accessor.SelfCopy
import Arcal.Externalizer.Occurs
import Arcal.Lacal.Server
import Arcal.Lacal.Registry
import Arcal.Lacal.Handshake
import Arcal.Lacal.Bridge
import Arcal.Lacal.TopicMonitor
import Arcal.Utils.Handles
import Arcal.Cdr.Decoded
import Arcal.Dds.Forward
import Arcal.Dds.Lifetime
import Arcal.Json.Reread
