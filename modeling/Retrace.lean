import Retrace.Isa.Flow
import Retrace.Main
import Retrace.Proofs.Trace.Exits
import Retrace.Proofs.Trace.Reconstruction
import Retrace.Proofs.Trace.Sites
import Retrace.Proofs.Trace.Successors
import Retrace.Proofs.Trace.Runs
import Retrace.Proofs.Trace.Paths
import Retrace.Proofs.Trace.Completeness
import Retrace.Proofs.Wire.Packets
import Retrace.Proofs.Wire.RoundTrip
import Retrace.Proofs.Message.Events
import Retrace.Proofs.Message.RoundTrip
import Retrace.Proofs.Trace.Resynchronization
import Retrace.Proofs.Trace.Effects
import Retrace.Proofs.Message.Readings
import Retrace.Proofs.Message.Times
import Retrace.Proofs.Print.Streams
import Retrace.Proofs.Session.Faults
import Retrace.Proofs.Session.Independence
import Retrace.Proofs.Session.Replies
import Retrace.Proofs.Session.Residue
import Retrace.Proofs.Trace.ImpliedReturns
import Retrace.Proofs.Trace.Requests
import Retrace.Proofs.Message.Volume
import Retrace.Proofs.Session.Calls
import Retrace.Proofs.Session.Accounts
import Retrace.Proofs.Session.Ending
import Retrace.Proofs.Trace.States
import Retrace.Proofs.Session.Reset
import Retrace.Proofs.Session.Printing
import Retrace.Proofs.Text.Utf8
import Retrace.Proofs.Image.Loading
import Retrace.Proofs.Trace.Counts
import Retrace.Proofs.Wire.Grammar
import Retrace.Proofs.Message.Timestamps
import Retrace.Proofs.Message.Counts
import Retrace.Proofs.Image.Lookup
import Retrace.Proofs.Image.Disassembly
import Retrace.Proofs.Trace.Work
import Retrace.Proofs.Isa.Transfers
import Retrace.Proofs.Print.Conservation
import Retrace.Proofs.Wire.Unread
import Retrace.Proofs.Dwarf.Sequences
import Retrace.Proofs.Image.Bounds
import Retrace.Proofs.Isa.Classes
import Retrace.Proofs.Isa.Masks
import Retrace.Proofs.Isa.Splitting
import Retrace.Proofs.Trace.Fields
import Retrace.Proofs.Trace.Forgetting
import Retrace.Proofs.Config.Masks
