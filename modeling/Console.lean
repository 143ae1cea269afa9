import Console.Byte
import Console.Decimal
import Console.Fatal
import Console.Fault
import Console.Interface.Signature
import Console.Interface.Table
import Console.Lines
import Console.Machine.Call
import Console.Machine.Frame
import Console.Machine.Heap
import Console.Machine.Input
import Console.Machine.Output
import Console.Machine.Script
import Console.Main
import Console.Notice
import Console.Printing
import Console.Proofs.CallRefinement
import Console.Proofs.Calls
import Console.Proofs.Capacity
import Console.Proofs.Conservation
import Console.Proofs.DeliveryIndependence
import Console.Proofs.EchoOutcome
import Console.Proofs.FaultNotices
import Console.Proofs.Isolation
import Console.Proofs.Ledger
import Console.Proofs.NonInterference
import Console.Proofs.NullAbort
import Console.Proofs.Passage
import Console.Proofs.Pieces
import Console.Proofs.PrintOutcome
import Console.Proofs.RoundTrip
import Console.Proofs.Signal
import Console.Proofs.Splitting
import Console.Proofs.Tracking
import Console.Reading
import Console.Scratch
import Console.Session
import Console.Sink
import Console.Source
import Console.Text
import Console.Tool.Command
import Console.Tool.Echo
import Console.Tool.Tree
import Console.Utf8
import Console.Proofs.TextForm
import Console.Proofs.Concatenation
import Console.Proofs.Numerals
import Console.Proofs.IntegerOutcome
import Console.Proofs.Paths
import Console.Proofs.ToolOutcome
import Console.Proofs.Counting
import Console.Proofs.Declarations
import Console.Proofs.Growth
import Console.Proofs.CharacterCodes
import Console.Proofs.LossyDisplay
