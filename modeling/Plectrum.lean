import Plectrum.Text.Cursor
import Plectrum.Text.Session
import Plectrum.Text.Decimal
import Plectrum.Text.Place
import Plectrum.Text.Lines
import Plectrum.Text.Words
import Plectrum.Text.Invisible
import Plectrum.Text.Quoted
import Plectrum.Instrument.Command
import Plectrum.Instrument.Finger
import Plectrum.Journal
import Plectrum.Latency.Basic
import Plectrum.Latency.Directive
import Plectrum.Latency.Configuration
import Plectrum.Instrument.Code
import Plectrum.Schedule.Tick
import Plectrum.Score.Timeline
import Plectrum.Score.Tuple
import Plectrum.Score.Basic
import Plectrum.Score.Reading
import Plectrum.Chord.Table
import Plectrum.Text.Replacement
import Plectrum.Chord.Substitution
import Plectrum.Schedule.Tempo
import Plectrum.Schedule.Performance
import Plectrum.Schedule.Agenda
import Plectrum.Schedule.Scheduling
import Plectrum.Schedule.Journal
import Plectrum.Compile
import Plectrum.CommandLine.Options
import Plectrum.CommandLine.Reading
import Plectrum.Files.Failure
import Plectrum.Files.Store
import Plectrum.Program
import Plectrum.Main
import Plectrum.Proofs.Instrument.Mechanism
import Plectrum.Proofs.Instrument.Playing
import Plectrum.Proofs.Outcome
import Plectrum.Proofs.Schedule.Performance
import Plectrum.Proofs.Ascending
import Plectrum.Proofs.Schedule.Agenda
import Plectrum.Proofs.Schedule.Shift
import Plectrum.Proofs.Schedule.Calls
import Plectrum.Proofs.Schedule.Merge
import Plectrum.Proofs.Score.Reading
import Plectrum.Proofs.Score.Grammar
import Plectrum.Proofs.Score.Timeline
import Plectrum.Proofs.Score.Insertion
import Plectrum.Proofs.Schedule.Strokes
import Plectrum.Proofs.Schedule.Feasibility
import Plectrum.Proofs.Schedule.Chronicle
import Plectrum.Proofs.Schedule.Playback
import Plectrum.Proofs.Text.Numeral
import Plectrum.Proofs.Score.Validity
import Plectrum.Proofs.Score.Verdict
import Plectrum.Proofs.Score.Strumming
import Plectrum.Proofs.Schedule.Override
import Plectrum.Proofs.Schedule.Gesture
import Plectrum.Proofs.Text.Replacement
import Plectrum.Proofs.Chord.Table
import Plectrum.Proofs.Chord.Substitution
import Plectrum.Proofs.Score.Contents
import Plectrum.Proofs.Score.Concatenation
import Plectrum.Proofs.Score.Brushes
import Plectrum.Proofs.Instrument.Code
import Plectrum.Proofs.Schedule.Rendering
import Plectrum.Proofs.Score.Partition
import Plectrum.Proofs.Schedule.Continuation
import Plectrum.Proofs.Compile.Continuation
import Plectrum.Proofs.Schedule.Order
import Plectrum.Proofs.Latency.Entries
import Plectrum.Proofs.Latency.Configuration
import Plectrum.Proofs.Text.Place
import Plectrum.Proofs.Text.Excerpt
import Plectrum.Proofs.Chord.Notation
import Plectrum.Proofs.Compile.Location
import Plectrum.Proofs.Machine.Operations
import Plectrum.Proofs.Machine.Places
import Plectrum.Proofs.Machine.Loading
import Plectrum.Proofs.Machine.Reading
import Plectrum.Proofs.Machine.Scheduling
import Plectrum.Proofs.Machine.Compiling
import Plectrum.Proofs.Schedule.Failure
import Plectrum.Proofs.Schedule.Attribution
import Plectrum.Proofs.Schedule.Independence
import Plectrum.Proofs.Schedule.Monotonicity
import Plectrum.Proofs.Text.LineEnds
import Plectrum.Proofs.Latency.Refusal
import Plectrum.Proofs.Text.Words
import Plectrum.Proofs.Chord.Acceptance
import Plectrum.Proofs.Machine.Order
import Plectrum.Proofs.Text.Session
import Plectrum.Proofs.Machine.Scanning
import Plectrum.Proofs.Files.Store
import Plectrum.Proofs.Program.Stages
import Plectrum.Proofs.Program.Delivery
