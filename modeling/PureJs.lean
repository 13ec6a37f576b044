import PureJs.Host.Machine
import PureJs.Main
import PureJs.Proofs.Emit.LoopForms
import PureJs.Proofs.Emit.OwnNames
import PureJs.Proofs.Program.Meaning
import PureJs.Proofs.Program.Reachability
import PureJs.Proofs.Program.WellFormed
import PureJs.Proofs.Emit.PlainScopes
import PureJs.Proofs.Emit.ModuleScopes
import PureJs.Proofs.Emit.Container
import PureJs.Proofs.Program.Sorting
import PureJs.Proofs.Program.Outcome
import PureJs.Proofs.Syntax.LaidOutModules
import PureJs.Proofs.Program.FileNames
import PureJs.Proofs.Program.InputOrder
import PureJs.Proofs.Program.Interfaces
import PureJs.Proofs.Program.Extension
import PureJs.Proofs.Program.CommonImport
import PureJs.Proofs.Program.WrittenPrelude
import PureJs.Proofs.Fallible.Order
import PureJs.Proofs.Fallible.Liveness
import PureJs.Proofs.Fallible.Code
import PureJs.Proofs.Fallible.Compile
import PureJs.Proofs.Host.Files
import PureJs.Proofs.Host.Watched
import PureJs.Proofs.Run.Reading
import PureJs.Proofs.Run.Writing
import PureJs.Proofs.Run.AllOrNothing
import PureJs.Proofs.Run.Unwatched
import PureJs.Proofs.Program.Rechecked
import PureJs.Proofs.Emit.DeclarationOrder
import PureJs.Proofs.Token.Steady
import PureJs.Proofs.Syntax.KeptTypes
import PureJs.Proofs.Syntax.Climbing
import PureJs.Proofs.Token.Words
import PureJs.Proofs.Syntax.Chains
import PureJs.Proofs.Emit.TailLeaves
import PureJs.Proofs.Syntax.NodesInOrder
import PureJs.Proofs.Program.WrittenValues
import PureJs.Proofs.Program.CodeTrees
import PureJs.Proofs.Program.Precedence
import PureJs.Proofs.Program.Reports
import PureJs.Proofs.Token.Coverage
import PureJs.Proofs.Token.LineStarts
import PureJs.Proofs.Emit.LegalForms
import PureJs.Proofs.Run.Merged
import PureJs.Proofs.Program.NormalForm
import PureJs.Proofs.Program.FoldedLiveness
import PureJs.Proofs.Emit.ForeignLines
import PureJs.Proofs.Emit.GeneratedNames
import PureJs.Proofs.Syntax.Orderly
