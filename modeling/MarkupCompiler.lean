import MarkupCompiler.Text.Bytes
import MarkupCompiler.Text.Letter
import MarkupCompiler.Text.Location
import MarkupCompiler.Text.Quoted
import MarkupCompiler.Text.Escape
import MarkupCompiler.Text.Entity
import MarkupCompiler.Text.Lines
import MarkupCompiler.Number.Binary64
import MarkupCompiler.Number.Shortest
import MarkupCompiler.Number.Printed
import MarkupCompiler.Text.CodeUnit
import MarkupCompiler.Json.Value
import MarkupCompiler.Json.Reader
import MarkupCompiler.Json.Record
import MarkupCompiler.Syntax.Token
import MarkupCompiler.Syntax.Lexer
import MarkupCompiler.Syntax.Tree
import MarkupCompiler.Syntax.Walk
import MarkupCompiler.Syntax.Stretch
import MarkupCompiler.Syntax.Diagnostic
import MarkupCompiler.Grammar.Parser
import MarkupCompiler.Grammar.Rules
import MarkupCompiler.Grammar.Types
import MarkupCompiler.Grammar.Function
import MarkupCompiler.Syntax.Target
import MarkupCompiler.Grammar.Literal
import MarkupCompiler.Grammar.Arrow
import MarkupCompiler.Syntax.Operator
import MarkupCompiler.Grammar.Expression
import MarkupCompiler.Grammar.Markup
import MarkupCompiler.Grammar.Class
import MarkupCompiler.Grammar.Declaration
import MarkupCompiler.Grammar.Exchange
import MarkupCompiler.Grammar.Statement
import MarkupCompiler.Grammar.Source
import MarkupCompiler.Markup.Name
import MarkupCompiler.Markup.Constant
import MarkupCompiler.Markup.Skeleton
import MarkupCompiler.Markup.ListShape
import MarkupCompiler.Markup.Reactivity
import MarkupCompiler.Compile.Options
import MarkupCompiler.Emit.TemplateTable
import MarkupCompiler.Emit.Basic
import MarkupCompiler.Emit.Expression
import MarkupCompiler.Emit.Component
import MarkupCompiler.Emit.Block
import MarkupCompiler.Emit.Server
import MarkupCompiler.Emit.Markup
import MarkupCompiler.Compile.FileId
import MarkupCompiler.Compile.Error
import MarkupCompiler.Compile.Assembly
import MarkupCompiler.Compile.Compiler
import MarkupCompiler.Host.Options
import MarkupCompiler.Host.Transform
import MarkupCompiler.Host.Discovery
import MarkupCompiler.Proofs.Pieces
import MarkupCompiler.Proofs.TemplateElements
import MarkupCompiler.Proofs.StaticElements
import MarkupCompiler.Proofs.Emission
import MarkupCompiler.Proofs.ServerChunks
import MarkupCompiler.Proofs.HtmlReader
import MarkupCompiler.Proofs.RawText
import MarkupCompiler.Proofs.TemplateTree
import MarkupCompiler.Proofs.Slots
import MarkupCompiler.Proofs.BindingSites
import MarkupCompiler.Proofs.Depth
import MarkupCompiler.Proofs.Agreement
import MarkupCompiler.Proofs.Deferral
import MarkupCompiler.Proofs.AmbientContext
import MarkupCompiler.Proofs.Splicing
import MarkupCompiler.Proofs.MarkerRetention
import MarkupCompiler.Proofs.Rewriting
import MarkupCompiler.Proofs.ServerEscaping
import MarkupCompiler.Proofs.Layout
import MarkupCompiler.Proofs.WellFormed
import MarkupCompiler.Proofs.Scanning
import MarkupCompiler.Proofs.Parsing
import MarkupCompiler.Proofs.WordBoundary
import MarkupCompiler.Proofs.Constituents
import MarkupCompiler.Proofs.EmitterInvariant
import MarkupCompiler.Proofs.TemplateNames
import MarkupCompiler.Proofs.TemplateTables
import MarkupCompiler.Proofs.Totality
import MarkupCompiler.Proofs.Terms
import MarkupCompiler.Proofs.Translation
import MarkupCompiler.Proofs.Relocation
import MarkupCompiler.Proofs.ValueScope
import MarkupCompiler.Proofs.CursorPlace
import MarkupCompiler.Proofs.TermTokens
import MarkupCompiler.Proofs.ParserSpec
import MarkupCompiler.Proofs.TypeSpec
import MarkupCompiler.Proofs.ExpressionSpec
import MarkupCompiler.Proofs.MarkupSpec
import MarkupCompiler.Proofs.StatementSpec
import MarkupCompiler.Proofs.ArrowTrials
import MarkupCompiler.Proofs.TermLoops
import MarkupCompiler.Proofs.TermLevels
import MarkupCompiler.Proofs.TermOperands
import MarkupCompiler.Proofs.TermReading
import MarkupCompiler.Proofs.TermModules
import MarkupCompiler.Proofs.ReadBack
import MarkupCompiler.Proofs.MarkupSniff
import MarkupCompiler.Proofs.SpelledParts
import MarkupCompiler.Proofs.HelperCalls
import MarkupCompiler.Proofs.PlainTexts
import MarkupCompiler.Proofs.CodeTexts
import MarkupCompiler.Proofs.CallingCode
import MarkupCompiler.Proofs.CallingElements
import MarkupCompiler.Proofs.HelperImports
import MarkupCompiler.Proofs.MarkerSearch
import MarkupCompiler.Proofs.AttributeOrder
import MarkupCompiler.Proofs.FileTrees
import MarkupCompiler.Proofs.SourceDiscovery
import MarkupCompiler.Proofs.RootPlaces
import MarkupCompiler.Proofs.BlockTargets
import MarkupCompiler.Proofs.Sessions
import MarkupCompiler.Proofs.SpliceOrder
import MarkupCompiler.Proofs.ComponentProperties
import MarkupCompiler.Proofs.ItemFunctions
import MarkupCompiler.Proofs.LeadingTokens
import MarkupCompiler.Proofs.LeftEnds
import MarkupCompiler.Proofs.LeadingCode
import MarkupCompiler.Proofs.ArrowBodies
import MarkupCompiler.Proofs.LineContent
import MarkupCompiler.Proofs.CharacterReferences
import MarkupCompiler.Proofs.ReferenceGrammar
import MarkupCompiler.Proofs.StringLiterals
import MarkupCompiler.Proofs.ArrayLiterals
import MarkupCompiler.Proofs.SourcePositions
import MarkupCompiler.Proofs.NearestValues
import MarkupCompiler.Proofs.ShortestDigits
import MarkupCompiler.Proofs.NumberTexts
import MarkupCompiler.Proofs.JsonGrammar
import MarkupCompiler.Proofs.JsonTokens
import MarkupCompiler.Proofs.JsonTexts
import MarkupCompiler.Proofs.JsonRecords
import MarkupCompiler.Proofs.ErrorTexts
import MarkupCompiler.Proofs.OptionTexts
