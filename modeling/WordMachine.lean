import WordMachine.Text.Numeral
import WordMachine.Text.Tokens
import WordMachine.Text.CharClass
import WordMachine.Text.Extent
import WordMachine.Text.Fields
import WordMachine.Text.Rounding
import WordMachine.Word
import WordMachine.Instruction
import WordMachine.Listing
import WordMachine.Failure
import WordMachine.Json.Token
import WordMachine.Json.Value
import WordMachine.Json.Record
import WordMachine.Settings.Basic
import WordMachine.Settings.Document
import WordMachine.Machine.Memory
import WordMachine.Machine.Registers
import WordMachine.Machine.Tally
import WordMachine.Machine.Basic
import WordMachine.Host.Sink
import WordMachine.Host.Console
import WordMachine.Host.TokenQueue
import WordMachine.Host.Stream
import WordMachine.Host.Directory
import WordMachine.Log.Event
import WordMachine.Log.Filter
import WordMachine.Log.Pattern.Escape
import WordMachine.Log.Pattern.Bracket
import WordMachine.Log.Pattern
import WordMachine.Log.Setting
import WordMachine.Bench.Basic
import WordMachine.Bench.Loading
import WordMachine.Output.Dump
import WordMachine.Output.Report
import WordMachine.Command.Request
import WordMachine.Command.Outcome
import WordMachine.Main
import WordMachine.Proofs.Numeral
import WordMachine.Proofs.Ascii
import WordMachine.Proofs.Number
import WordMachine.Proofs.Step
import WordMachine.Proofs.Reference
import WordMachine.Proofs.Fault
import WordMachine.Proofs.Run
import WordMachine.Proofs.Fetch
import WordMachine.Proofs.Simulation
import WordMachine.Proofs.Tokens
import WordMachine.Proofs.Stream
import WordMachine.Proofs.Lines
import WordMachine.Proofs.Loading
import WordMachine.Proofs.Intake
import WordMachine.Proofs.Mirror
import WordMachine.Proofs.Spelling
import WordMachine.Proofs.ProgramText
import WordMachine.Proofs.Widening
import WordMachine.Proofs.HostFailure
import WordMachine.Proofs.Resumption
import WordMachine.Proofs.Lookahead
import WordMachine.Proofs.History
import WordMachine.Proofs.Bounds
import WordMachine.Proofs.Account
import WordMachine.Proofs.Meaning
import WordMachine.Proofs.Bookkeeping
import WordMachine.Proofs.IgnoredBits
import WordMachine.Proofs.Provenance
import WordMachine.Proofs.Termination
import WordMachine.Proofs.Emission
import WordMachine.Proofs.Ending
import WordMachine.Proofs.Printing
import WordMachine.Proofs.Room
import WordMachine.Proofs.Layout
import WordMachine.Proofs.Acceptance
import WordMachine.Proofs.DumpText
import WordMachine.Proofs.DumpReader
import WordMachine.Proofs.CommandLine
import WordMachine.Proofs.Arguments
import WordMachine.Proofs.Observation
import WordMachine.Proofs.FullSink
import WordMachine.Proofs.DumpRoom
import WordMachine.Proofs.JsonText
import WordMachine.Proofs.JsonValue
import WordMachine.Proofs.JsonRecord
import WordMachine.Proofs.SettingsText
import WordMachine.Proofs.AllOrNothing
import WordMachine.Proofs.Rest
import WordMachine.Proofs.Reset
import WordMachine.Proofs.Assembly
import WordMachine.Proofs.Disassembly
import WordMachine.Proofs.Positional
import WordMachine.Proofs.Scanner
import WordMachine.Proofs.StraightLine
