import ChipFamily.CommandLine.Run
import ChipFamily.Machine.Command
import ChipFamily.Main
import ChipFamily.Proofs.CommandLine.Arguments
import ChipFamily.Proofs.CommandLine.Grammar
import ChipFamily.Proofs.CommandLine.HexDump
import ChipFamily.Proofs.CommandLine.JsonForm
import ChipFamily.Proofs.CommandLine.Outcome
import ChipFamily.Proofs.CommandLine.RangeText
import ChipFamily.Proofs.CommandLine.StartUpReport
import ChipFamily.Proofs.Machine.BootCheck
import ChipFamily.Proofs.Machine.Images
import ChipFamily.Proofs.Machine.Paths
import ChipFamily.Proofs.Machine.Reset
import ChipFamily.Proofs.Machine.Sides
import ChipFamily.Proofs.Machine.StartUp
import ChipFamily.Proofs.Machine.Traps
import ChipFamily.Proofs.Machine.Views
import ChipFamily.Proofs.Memory.Fetch
import ChipFamily.Proofs.Memory.LastWriter
import ChipFamily.Proofs.Memory.Loading
import ChipFamily.Proofs.Memory.Overlap
import ChipFamily.Proofs.ReturnStack.BoundedList
import ChipFamily.Proofs.ReturnStack.Lawful
import ChipFamily.Proofs.ReturnStack.Mirrors
import ChipFamily.Proofs.ReturnStack.PullBack
import ChipFamily.Proofs.ReturnStack.Session
import ChipFamily.Proofs.Text.Address
import ChipFamily.Proofs.Text.Hex
