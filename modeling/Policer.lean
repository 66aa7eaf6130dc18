import Policer.Aggregator.ActiveTimeout
import Policer.Aggregator.Agg
import Policer.Aggregator.Allocation
import Policer.Aggregator.Averages
import Policer.Aggregator.Clock
import Policer.Aggregator.Config
import Policer.Aggregator.ConfigArrays
import Policer.Aggregator.Conservation
import Policer.Aggregator.Containers
import Policer.Aggregator.Counters
import Policer.Aggregator.Denotation
import Policer.Aggregator.DistinctValues
import Policer.Aggregator.FixedFields
import Policer.Aggregator.GlobalWindows
import Policer.Aggregator.Independence
import Policer.Aggregator.KeyBuffer
import Policer.Aggregator.NullPointer
import Policer.Aggregator.OptionCalls
import Policer.Aggregator.Options
import Policer.Aggregator.OrderFree
import Policer.Aggregator.Output
import Policer.Aggregator.OwnedRecords
import Policer.Aggregator.OwnedStorage
import Policer.Aggregator.Ownership
import Policer.Aggregator.PassiveExpiry
import Policer.Aggregator.Recovery
import Policer.Aggregator.Refinement
import Policer.Aggregator.Registration
import Policer.Aggregator.Runs
import Policer.Aggregator.StageOptions
import Policer.Aggregator.Storage
import Policer.Aggregator.Summary
import Policer.Aggregator.Supply
import Policer.Aggregator.Template
import Policer.Aggregator.UniRec
import Policer.Aggregator.VariableFields
import Policer.Aggregator.Window
import Policer.Backend.Builder
import Policer.Backend.Dataflow
import Policer.Backend.GroupFilterAliases
import Policer.Backend.InputTemplate
import Policer.Backend.Interfaces
import Policer.Backend.Launch
import Policer.Backend.Pipeline
import Policer.Backend.Process
import Policer.Backend.SelectorAliases
import Policer.Backend.Shutdown
import Policer.Backend.Streams
import Policer.Backend.StringFunctions
import Policer.Backend.StringLoops
import Policer.Backend.Translation
import Policer.Filter.Addresses
import Policer.Filter.Comparisons
import Policer.Filter.Core
import Policer.Filter.Grammar
import Policer.Filter.Literals
import Policer.Filter.Negation
import Policer.Filter.Nesting
import Policer.Filter.Nodes
import Policer.Filter.Verdicts
import Policer.Lib.Action
import Policer.Lib.Buffer
import Policer.Lib.CNumber
import Policer.Lib.CString
import Policer.Lib.Expectation
import Policer.Lib.Faults
import Policer.Lib.FirstOccurrences
import Policer.Lib.Flags
import Policer.Lib.Heap
import Policer.Lib.KeyedWindows
import Policer.Lib.Lexer
import Policer.Lib.LittleEndian
import Policer.Lib.Loop
import Policer.Lib.Network
import Policer.Lib.Outcome
import Policer.Lib.Pieces
import Policer.Lib.Recovery
import Policer.Lib.Simulation
import Policer.Lib.Substring
import Policer.Lib.Tokens
import Policer.Lib.Transition
import Policer.Lib.WrappedSum
import Policer.Parsing.Acceptance
import Policer.Parsing.Alias
import Policer.Parsing.Assigned
import Policer.Parsing.Ast
import Policer.Parsing.BodyLayout
import Policer.Parsing.BranchNames
import Policer.Parsing.BranchOrder
import Policer.Parsing.Crawl
import Policer.Parsing.Exception
import Policer.Parsing.ExpressionLayout
import Policer.Parsing.FilterBodies
import Policer.Parsing.FilterExpressions
import Policer.Parsing.FilterGrammar
import Policer.Parsing.FilterLexer
import Policer.Parsing.FilterNames
import Policer.Parsing.FilterRenaming
import Policer.Parsing.Keywords
import Policer.Parsing.Layout
import Policer.Parsing.Names
import Policer.Parsing.Numbers
import Policer.Parsing.Occurrence
import Policer.Parsing.Parser
import Policer.Parsing.Recursion
import Policer.Parsing.Reordered
import Policer.Parsing.RuleGrammar
import Policer.Parsing.RuleLayout
import Policer.Parsing.Scoping
import Policer.Parsing.SelectorCheck
import Policer.Parsing.SelectorGrammar
import Policer.Parsing.StageChecks
import Policer.Parsing.Tree
import Policer.Parsing.UnknownNames
import Policer.Parsing.Variables
import Policer.Parsing.Verdicts
import Policer.Parsing.Visitor
import Policer.Selector.Dictionary
import Policer.Selector.Expressions
import Policer.Selector.Items
import Policer.Selector.Messages
import Policer.Selector.RoundTrip
import Policer.Filter.Networks
