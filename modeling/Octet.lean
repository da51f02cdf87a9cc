import Octet.Command
import Octet.Command.Arguments
import Octet.Declaration
import Octet.Disk
import Octet.Error
import Octet.Event
import Octet.Fleet
import Octet.Instruction
import Octet.Json
import Octet.Loader
import Octet.LogFilter
import Octet.LogFilter.Directive
import Octet.LogFilter.Pattern
import Octet.LogFilter.Pattern.Class
import Octet.LogFilter.Pattern.Escape
import Octet.LogFilter.Pattern.Flags
import Octet.Machine
import Octet.Machine.Dump
import Octet.Machine.Execute
import Octet.Main
import Octet.Opcode
import Octet.Program
import Octet.Proofs.Aliasing
import Octet.Proofs.Allocation
import Octet.Proofs.Arithmetic
import Octet.Proofs.Atomicity
import Octet.Proofs.Calls
import Octet.Proofs.Configuration
import Octet.Proofs.Documents
import Octet.Proofs.Drivers
import Octet.Proofs.Dumps
import Octet.Proofs.Encoding
import Octet.Proofs.Execution
import Octet.Proofs.Extension
import Octet.Proofs.Footprints
import Octet.Proofs.Grammar
import Octet.Proofs.Isolation
import Octet.Proofs.Journeys
import Octet.Proofs.Layout
import Octet.Proofs.Lexemes
import Octet.Proofs.Limbs
import Octet.Proofs.Listing
import Octet.Proofs.Literals
import Octet.Proofs.LittleEndian
import Octet.Proofs.Loading
import Octet.Proofs.Memory
import Octet.Proofs.Modes
import Octet.Proofs.Numerals
import Octet.Proofs.Observation
import Octet.Proofs.Partition
import Octet.Proofs.Placement
import Octet.Proofs.Pools
import Octet.Proofs.Refinement
import Octet.Proofs.Renaming
import Octet.Proofs.Rendering
import Octet.Proofs.Reprinting
import Octet.Proofs.Residues
import Octet.Proofs.Runs
import Octet.Proofs.Scanning
import Octet.Proofs.Simulation
import Octet.Proofs.Sources
import Octet.Proofs.Splitting
import Octet.Proofs.Tallies
import Octet.Proofs.Tokens
import Octet.Proofs.Transcript
import Octet.Proofs.Typing
import Octet.Proofs.WordMachine
import Octet.Register
import Octet.Scope
import Octet.Session
import Octet.Session.Shell
import Octet.Settings
import Octet.Settings.Document
import Octet.Source
import Octet.Statement
import Octet.Store
import Octet.Tally
import Octet.Text.Alphanumeric
import Octet.Text.Blank
import Octet.Text.Line
import Octet.Text.Numeral
import Octet.Token
import Octet.Value
import Octet.View
import Octet.World
