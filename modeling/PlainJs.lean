import PlainJs.Command.Run
import PlainJs.Config.Reader
import PlainJs.Json.Printer
import PlainJs.Lowering.Helper
import PlainJs.Lowering.Pipeline
import PlainJs.Main
import PlainJs.Node.Dump
import PlainJs.Node.Load
import PlainJs.Proofs.Allocation
import PlainJs.Proofs.Balance
import PlainJs.Proofs.Builders
import PlainJs.Proofs.Collected
import PlainJs.Proofs.Completion
import PlainJs.Proofs.Continues.Balance
import PlainJs.Proofs.Continues.Meaning
import PlainJs.Proofs.Continues.Redirected
import PlainJs.Proofs.Continues.Targets
import PlainJs.Proofs.Declarations.Pass
import PlainJs.Proofs.Destructuring.Split
import PlainJs.Proofs.Effect
import PlainJs.Proofs.Epilogue
import PlainJs.Proofs.Execution
import PlainJs.Proofs.Exports
import PlainJs.Proofs.Finallys.Balance
import PlainJs.Proofs.Finallys.EarlyExits
import PlainJs.Proofs.Finallys.Finalizers
import PlainJs.Proofs.Finallys.Exits
import PlainJs.Proofs.Finallys.Meaning
import PlainJs.Proofs.FreshNames
import PlainJs.Proofs.Globals
import PlainJs.Proofs.Idempotence
import PlainJs.Proofs.Jumps
import PlainJs.Proofs.KeyHelper
import PlainJs.Proofs.Kinship
import PlainJs.Proofs.LabelFaults
import PlainJs.Proofs.LabelRules
import PlainJs.Proofs.Ledger
import PlainJs.Proofs.Loops.Bindings
import PlainJs.Proofs.Loops.Iterators
import PlainJs.Proofs.Loops.Meaning
import PlainJs.Proofs.Loops.Closing
import PlainJs.Proofs.Loops.Closures
import PlainJs.Proofs.Loops.Rounds
import PlainJs.Proofs.Lowered
import PlainJs.Proofs.Parts
import PlainJs.Proofs.Refusals
import PlainJs.Proofs.Reserved
import PlainJs.Proofs.Rules.Groupings
import PlainJs.Proofs.Rules.Initializers
import PlainJs.Proofs.Rules.Openings
import PlainJs.Proofs.Rules.Operands
import PlainJs.Proofs.Scopes.Lookup
import PlainJs.Proofs.Scopes.Resolution
import PlainJs.Proofs.SideEffects
import PlainJs.Proofs.Switches.Hoisting
import PlainJs.Proofs.Switches.Meaning
import PlainJs.Proofs.Switches.Scoping
import PlainJs.Proofs.Temporaries
import PlainJs.Proofs.Violations
