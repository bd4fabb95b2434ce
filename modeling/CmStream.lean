import CmStream.Word
import CmStream.Text.Hex
import CmStream.Text.Numeral
import CmStream.Text.Shapeless
import CmStream.Text.Quoted
import CmStream.Text.SystemText
import CmStream.Text.Reading
import CmStream.FarPointer
import CmStream.Memory.Access
import CmStream.Memory.PagedMemory
import CmStream.Reader
import CmStream.Container.FormatError
import CmStream.Container.Block
import CmStream.Container.Image
import CmStream.Container.Parse
import CmStream.Container.Walk
import CmStream.Container.Encode
import CmStream.Container.Routine
import CmStream.Machine.Flags
import CmStream.Machine.Registers
import CmStream.Machine.Arithmetic
import CmStream.Machine.Shift
import CmStream.Machine.Decimal
import CmStream.Machine.Product
import CmStream.Machine.Microprogram
import CmStream.Machine.Operand
import CmStream.Machine.StringOperation
import CmStream.Machine.Instruction
import CmStream.Machine.Execution
import CmStream.Machine.Step
import CmStream.Sandbox
import CmStream.Decompression
import CmStream.Listing
import CmStream.Progress
import CmStream.Shown
import CmStream.CommandLine.OptionParser
import CmStream.CommandLine.Options
import CmStream.CommandLine.Scanner
import CmStream.CommandLine.Directory
import CmStream.CommandLine.Session
import CmStream.CommandLine.Program
import CmStream.Main
import CmStream.Checked.Number
import CmStream.Checked.Cursor
import CmStream.Checked.Container
import CmStream.Checked.Memory
import CmStream.Checked.Arithmetic
import CmStream.Checked.Instruction
import CmStream.Checked.Execution
import CmStream.Checked.Decompression
import CmStream.Proofs.Memory.Slots
import CmStream.Proofs.Machine.Effects
import CmStream.Proofs.Machine.Iteration
import CmStream.Proofs.Machine.Confinement
import CmStream.Proofs.Machine.Lockstep
import CmStream.Proofs.Sandbox.Layout
import CmStream.Proofs.Machine.Running
import CmStream.Proofs.Sandbox.Entry
import CmStream.Proofs.Machine.Halting
import CmStream.Proofs.Container.Reading
import CmStream.Proofs.Container.Grammar
import CmStream.Proofs.Container.Truncation
import CmStream.Proofs.Container.Decomposition
import CmStream.Proofs.Sandbox.Calls
import CmStream.Proofs.Sandbox.Acceptance
import CmStream.Proofs.Machine.Instructions
import CmStream.Proofs.Container.Written
import CmStream.Proofs.Routine.Placement
import CmStream.Proofs.Routine.Returning
import CmStream.Proofs.Routine.Streams
import CmStream.Proofs.Routine.Copying
import CmStream.Proofs.Routine.Expanding
import CmStream.Proofs.Checked.Attempts
import CmStream.Proofs.Checked.Reading
import CmStream.Proofs.Checked.Memory
import CmStream.Proofs.Checked.Arithmetic
import CmStream.Proofs.Checked.Instructions
import CmStream.Proofs.Checked.Execution
import CmStream.Proofs.Checked.Decompression
import CmStream.Machine.Latches
import CmStream.Unlimited
import CmStream.Proofs.Machine.Latches
import CmStream.Proofs.Machine.Splitting
import CmStream.Proofs.Machine.Looping
import CmStream.Proofs.Sandbox.Limits
import CmStream.Proofs.Sandbox.Extension
import CmStream.Proofs.Sandbox.Reentry
import CmStream.Machine.Flat
import CmStream.Proofs.Sandbox.Flattening
import CmStream.Machine.Accesses
import CmStream.Machine.Encoding
import CmStream.Machine.Synonyms
import CmStream.Proofs.Memory.Built
import CmStream.Proofs.Machine.FlagBits
import CmStream.Proofs.Machine.Plain
import CmStream.Proofs.Machine.Bodies
import CmStream.Proofs.Machine.Reading
import CmStream.Proofs.Machine.Extents
import CmStream.Proofs.Machine.Tables
import CmStream.Proofs.Machine.Fetching
import CmStream.Proofs.Machine.FlagKeeping
import CmStream.Proofs.Machine.Lengths
import CmStream.Proofs.Machine.Performing
import CmStream.Proofs.Machine.Synonyms
import CmStream.Machine.GivingUp
import CmStream.Memory.History
import CmStream.Proofs.Machine.Persistence
import CmStream.Proofs.Machine.OpenMemory
import CmStream.Proofs.Machine.Hazards
import CmStream.Proofs.Machine.Outcomes
import CmStream.Proofs.Memory.Laws
import CmStream.Proofs.Text.Reading
import CmStream.Proofs.Text.SystemText
import CmStream.Proofs.Shown
import CmStream.Proofs.CommandLine.Settings
import CmStream.Proofs.CommandLine.Scanning
import CmStream.Proofs.CommandLine.Listings
import CmStream.Proofs.CommandLine.Directories
import CmStream.Proofs.CommandLine.Outputs
import CmStream.Machine.Repeating
import CmStream.Proofs.Memory.Addresses
import CmStream.Proofs.Strings.Repeating
import CmStream.Proofs.Strings.Replication
import CmStream.Proofs.Strings.Filling
import CmStream.Proofs.Strings.Searching
import CmStream.Proofs.Strings.Faulting
import CmStream.Machine.Combining
import CmStream.Proofs.Machine.Sight
import CmStream.Proofs.Machine.Granted
import CmStream.Proofs.Arithmetic.Sums
import CmStream.Proofs.Arithmetic.Combining
import CmStream.Proofs.Arithmetic.Branching
import CmStream.Machine.Carrying
import CmStream.Proofs.Machine.Carrying
import CmStream.Proofs.Arithmetic.Limbs
import CmStream.Proofs.Arithmetic.Chains
import CmStream.Proofs.Arithmetic.Packed
import CmStream.Proofs.Machine.Tracing
import CmStream.Proofs.Sandbox.Tracing
import CmStream.Proofs.CommandLine.Verbosity
import CmStream.Machine.Multiplying
import CmStream.Machine.Shifting
import CmStream.Machine.Storing
import CmStream.Proofs.Arithmetic.Quotients
import CmStream.Proofs.Arithmetic.Multiplying
import CmStream.Proofs.Arithmetic.Shifts
import CmStream.Proofs.Arithmetic.Shifting
import CmStream.Proofs.Arithmetic.Rotating
import CmStream.Proofs.Machine.Storing
import CmStream.Proofs.Machine.Targets
import CmStream.Proofs.Strings.Storing
import CmStream.Proofs.Machine.Footprint
import CmStream.Machine.Stack
import CmStream.Proofs.Memory.Words
import CmStream.Proofs.Stack.Pushing
import CmStream.Proofs.Stack.Sequences
import CmStream.Proofs.Stack.Frames
import CmStream.Proofs.Stack.Calling
import CmStream.Container.Request
import CmStream.Proofs.Container.Requests
import CmStream.Machine.Modifying
import CmStream.Proofs.Machine.Modifying
