import Netlist.Text
import Netlist.Text.Blank
import Netlist.Token
import Netlist.Word
import Netlist.Numeral
import Netlist.NameTable
import Netlist.Parameter.Assignment
import Netlist.Parameter.Table
import Netlist.Card
import Netlist.Rack
import Netlist.Device
import Netlist.Config
import Netlist.Config.Setting
import Netlist.Fault
import Netlist.Model
import Netlist.Definition
import Netlist.Definition.Extraction
import Netlist.Scope
import Netlist.Pin
import Netlist.Catenation
import Netlist.Reference
import Netlist.DeviceLine
import Netlist.Renamer
import Netlist.Call
import Netlist.Cache
import Netlist.Expansion
import Netlist.Text.Lowercase
import Netlist.Pipeline
import Netlist.Yaml.Glyph
import Netlist.Yaml.Scalar
import Netlist.Yaml.Lexeme
import Netlist.Yaml
import Netlist.Config.Document
import Netlist.Json
import Netlist.LineDiff
import Netlist.Command.Request
import Netlist.Command.FileTree
import Netlist.Command
import Netlist.Main
import Netlist.Proofs.Word
import Netlist.Proofs.Leading
import Netlist.Proofs.Keyword
import Netlist.Proofs.Directive
import Netlist.Proofs.Extraction
import Netlist.Proofs.Walk
import Netlist.Proofs.Body
import Netlist.Proofs.Flatness
import Netlist.Proofs.Hygiene
import Netlist.Proofs.ModelAlias
import Netlist.Proofs.DeviceWords
import Netlist.Proofs.ModelReference
import Netlist.Proofs.Unfolding
import Netlist.Proofs.Descent
import Netlist.Proofs.Lockstep
import Netlist.Proofs.DepthLimit
import Netlist.Proofs.Places
import Netlist.Proofs.Outline
import Netlist.Proofs.Siblings
import Netlist.Proofs.Numbering
import Netlist.Proofs.Placement
import Netlist.Proofs.Unwinding
import Netlist.Proofs.CacheHistory
import Netlist.Proofs.ModelOrder
import Netlist.Proofs.Preface
import Netlist.Proofs.CacheReplay
import Netlist.Proofs.Threading
import Netlist.Proofs.RackList
import Netlist.Proofs.Address
import Netlist.Proofs.FatalFault
import Netlist.Proofs.Unmarked
import Netlist.Proofs.UnknownCalls
import Netlist.Proofs.NotedFault
import Netlist.Proofs.Layering
import Netlist.Proofs.Balance
import Netlist.Proofs.Partition
import Netlist.Proofs.Accessor
import Netlist.Proofs.LeadingParts
import Netlist.Proofs.NestedRoles
import Netlist.Proofs.RenamedNames
import Netlist.Proofs.BalancedBodies
import Netlist.Proofs.NestingFault
import Netlist.Proofs.Defaults
import Netlist.Proofs.RepeatedFormals
import Netlist.Proofs.Capture
import Netlist.Proofs.RecordedModels
import Netlist.Proofs.ModelLookup
import Netlist.Proofs.UndeclaredModel
import Netlist.Proofs.ExpressionNodes
import Netlist.Proofs.TokenForms
import Netlist.Proofs.ParameterChains
import Netlist.Proofs.UnrelatedParameters
import Netlist.Proofs.Rescanning
import Netlist.Proofs.RepeatedSubstitution
import Netlist.Proofs.BytePositions
import Netlist.Proofs.WrittenStatements
import Netlist.Proofs.PrintedTables
import Netlist.Proofs.RenderedDecks
import Netlist.Proofs.ReferencePositions
import Netlist.Proofs.NodeSpan
import Netlist.Proofs.Overlay
