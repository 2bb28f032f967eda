import Whitespace.Instruction.Spelling
import Whitespace.Interpreter
import Whitespace.Main
import Whitespace.Proofs.Consistency
import Whitespace.Proofs.Simulation
import Whitespace.Proofs.Signals
import Whitespace.Proofs.Grammar
import Whitespace.Proofs.Acceptance
import Whitespace.Proofs.RoundTrip
import Whitespace.Proofs.Layout
import Whitespace.Proofs.Frame
import Whitespace.Proofs.Unwinding
import Whitespace.Proofs.ErrorPrecision
import Whitespace.Proofs.LinkingErrors
import Whitespace.Proofs.Comments
import Whitespace.Proofs.Journal
import Whitespace.Proofs.TextRoundTrip
import Whitespace.Proofs.OutputText
import Whitespace.Proofs.ReliableReading
import Whitespace.Proofs.ReadBack
import Whitespace.Proofs.Rerun
import Whitespace.Proofs.LimitedOutput
import Whitespace.Proofs.MissingStreams
import Whitespace.Proofs.Incremental
import Whitespace.Proofs.PrematureEnd
import Whitespace.Proofs.LabelNames
import Whitespace.Proofs.UnusedLabels
import Whitespace.Proofs.Dialogue
import Whitespace.Proofs.Flushing
import Whitespace.Proofs.Lifecycle
import Whitespace.Proofs.HeapCells
import Whitespace.Proofs.FaultDamage
import Whitespace.Proofs.StoredFiles
import Whitespace.Proofs.CommandLine
import Whitespace.Proofs.CanonicalSource
import Whitespace.Proofs.ByteByByte
import Whitespace.Proofs.DecimalTokens
import Whitespace.Proofs.NumberReading
import Whitespace.Proofs.CharacterReading
import Whitespace.Proofs.ListingReader
import Whitespace.Proofs.Words
import Whitespace.Proofs.Arithmetic
import Whitespace.Proofs.Depths
import Whitespace.Proofs.LiteralWords
import Whitespace.Proofs.Arrivals
import Whitespace.Proofs.TextComments
import Whitespace.Proofs.Bookkeeping
