import ComponentMarkup.Text.OrderedPoints
import ComponentMarkup.Text.ScalarSet
import ComponentMarkup.Text.IdentifierTable
import ComponentMarkup.Text.LetterTable
import ComponentMarkup.Text.PrintableTable
import ComponentMarkup.Text.ClusterTable
import ComponentMarkup.Text.Character
import ComponentMarkup.Text.Numeral
import ComponentMarkup.Text.Source
import ComponentMarkup.Text.Line
import ComponentMarkup.Text.Cluster
import ComponentMarkup.Text.Quoted
import ComponentMarkup.Tree.Kind
import ComponentMarkup.Tree.Node
import ComponentMarkup.Tree.Written
import ComponentMarkup.Tree.Depth
import ComponentMarkup.Text.Bracket
import ComponentMarkup.Markup.Nesting
import ComponentMarkup.Markup.Head
import ComponentMarkup.Markup.PlainText
import ComponentMarkup.Markup.Inline
import ComponentMarkup.Markup.BlockStart
import ComponentMarkup.Markup.Block
import ComponentMarkup.Script.Token
import ComponentMarkup.Script.Parser
import ComponentMarkup.Script.Grammar
import ComponentMarkup.Document.Grammar
import ComponentMarkup.Document.Graft
import ComponentMarkup.Document.ParseError
import ComponentMarkup.Document.Parse
import ComponentMarkup.Document.View
import ComponentMarkup.Program.Expr
import ComponentMarkup.Program.Simplify
import ComponentMarkup.Program.Literal
import ComponentMarkup.Program.Layout
import ComponentMarkup.Program.SourceMap
import ComponentMarkup.Document.Diagnostic
import ComponentMarkup.Settings.Basic
import ComponentMarkup.Render.Needs
import ComponentMarkup.Render.Script
import ComponentMarkup.Render.Sequence
import ComponentMarkup.Render.Command
import ComponentMarkup.Render.Markup
import ComponentMarkup.Program.Module
import ComponentMarkup.Compile
import ComponentMarkup.Toml.Moment
import ComponentMarkup.Toml.Value
import ComponentMarkup.Toml.Scalar
import ComponentMarkup.Toml.Text
import ComponentMarkup.Toml.Table
import ComponentMarkup.Toml.Read
import ComponentMarkup.Toml.Write
import ComponentMarkup.Settings.Toml
import ComponentMarkup.Proofs.Text.Stretch
import ComponentMarkup.Proofs.Text.Scan
import ComponentMarkup.Proofs.Text.Lines
import ComponentMarkup.Proofs.Text.Positions
import ComponentMarkup.Proofs.Tree.Tiling
import ComponentMarkup.Proofs.Tree.Places
import ComponentMarkup.Proofs.Tree.Within
import ComponentMarkup.Proofs.Tree.MarkupHeight
import ComponentMarkup.Proofs.Script.TokenLength
import ComponentMarkup.Proofs.Script.TokenTiling
import ComponentMarkup.Proofs.Script.ParserTiling
import ComponentMarkup.Proofs.Script.GrammarTiling
import ComponentMarkup.Proofs.Script.Lockstep
import ComponentMarkup.Proofs.Script.RulesInStep
import ComponentMarkup.Proofs.Script.SideBySide
import ComponentMarkup.Proofs.Script.Locality
import ComponentMarkup.Proofs.Script.TokenEnd
import ComponentMarkup.Proofs.Script.Keywords
import ComponentMarkup.Proofs.Script.ScanStable
import ComponentMarkup.Proofs.Script.TokenStable
import ComponentMarkup.Proofs.Script.TokenLeaves
import ComponentMarkup.Proofs.Script.TokenList
import ComponentMarkup.Proofs.Script.Legible
import ComponentMarkup.Proofs.Script.Splice
import ComponentMarkup.Proofs.Script.SpliceEdges
import ComponentMarkup.Proofs.Script.Chains
import ComponentMarkup.Proofs.Script.ScriptHeight
import ComponentMarkup.Proofs.Script.Limits
import ComponentMarkup.Proofs.Script.Behind
import ComponentMarkup.Proofs.Script.Afresh
import ComponentMarkup.Proofs.Script.ArrowMemory
import ComponentMarkup.Proofs.Script.Precedence
import ComponentMarkup.Proofs.Script.ReadSoFar
import ComponentMarkup.Proofs.Script.Operands
import ComponentMarkup.Proofs.Script.OperatorTrees
import ComponentMarkup.Proofs.Markup.PlainText
import ComponentMarkup.Proofs.Markup.HeadTiling
import ComponentMarkup.Proofs.Markup.StackTiling
import ComponentMarkup.Proofs.Markup.InlineTiling
import ComponentMarkup.Proofs.Markup.FillTiling
import ComponentMarkup.Proofs.Markup.LineBounds
import ComponentMarkup.Proofs.Markup.TableTiling
import ComponentMarkup.Proofs.Markup.BlockTiling
import ComponentMarkup.Proofs.Markup.Pairing
import ComponentMarkup.Proofs.Markup.Bodies
import ComponentMarkup.Proofs.Markup.SoleCommand
import ComponentMarkup.Proofs.Markup.SoleRegion
import ComponentMarkup.Proofs.Markup.InlineSlots
import ComponentMarkup.Proofs.Markup.BlockSlots
import ComponentMarkup.Proofs.Markup.Moves
import ComponentMarkup.Proofs.Markup.InlineHeight
import ComponentMarkup.Proofs.Markup.BlockHeight
import ComponentMarkup.Proofs.Document.Lossless
import ComponentMarkup.Proofs.Document.Locality
import ComponentMarkup.Proofs.Document.ScriptRegion
import ComponentMarkup.Proofs.Document.Mounting
import ComponentMarkup.Proofs.Document.Views
import ComponentMarkup.Proofs.Document.Reports
import ComponentMarkup.Proofs.Document.Depth
import ComponentMarkup.Proofs.Document.MarkupDepth
import ComponentMarkup.Proofs.Document.Embeds
import ComponentMarkup.Proofs.Document.ScriptStretches
import ComponentMarkup.Proofs.Program.CodeText
import ComponentMarkup.Proofs.Program.Everywhere
import ComponentMarkup.Proofs.Program.Meaning
import ComponentMarkup.Proofs.Program.SimplifyMeaning
import ComponentMarkup.Proofs.Program.Traced
import ComponentMarkup.Proofs.Program.Mappings
import ComponentMarkup.Proofs.Render.CopiedText
import ComponentMarkup.Proofs.Render.Splicing
import ComponentMarkup.Proofs.Render.Tokens
import ComponentMarkup.Proofs.Render.Origins
import ComponentMarkup.Proofs.Render.ScriptOrigins
import ComponentMarkup.Proofs.Render.MarkupOrigins
import ComponentMarkup.Proofs.Render.ParsedScripts
import ComponentMarkup.Proofs.Render.SourceMaps
import ComponentMarkup.Proofs.Render.RenderedMeaning
import ComponentMarkup.Proofs.Render.Gathered
import ComponentMarkup.Proofs.Render.Failures
import ComponentMarkup.Proofs.Render.ImportedNames
import ComponentMarkup.Proofs.Markup.Formed
import ComponentMarkup.Proofs.Markup.Characterwise
import ComponentMarkup.Proofs.Program.Decoding
import ComponentMarkup.Proofs.Markup.Interruption
import ComponentMarkup.Proofs.Document.ContainedCode
import ComponentMarkup.Proofs.Document.FormedTrees
import ComponentMarkup.Proofs.Markup.ScanEnds
import ComponentMarkup.Proofs.Markup.Readings
import ComponentMarkup.Proofs.Markup.ReadingRules
import ComponentMarkup.Proofs.Markup.ReadingSteps
import ComponentMarkup.Proofs.Markup.ReadingTrees
import ComponentMarkup.Proofs.Markup.MarkPairs
import ComponentMarkup.Proofs.Markup.WholeRuns
import ComponentMarkup.Proofs.Markup.BlockReadings
import ComponentMarkup.Proofs.Render.Escapes
import ComponentMarkup.Proofs.Render.Mentions
import ComponentMarkup.Proofs.Render.ScriptMentions
import ComponentMarkup.Proofs.Render.MarkupMentions
import ComponentMarkup.Proofs.Render.PreludeComponents
import ComponentMarkup.Proofs.Program.NormalForms
import ComponentMarkup.Proofs.Render.Scopes
import ComponentMarkup.Proofs.Markup.DelimiterRows
import ComponentMarkup.Proofs.Markup.TableColumns
import ComponentMarkup.Proofs.Markup.BlockHeredity
import ComponentMarkup.Proofs.Markup.TabularTrees
import ComponentMarkup.Proofs.Document.Tables
import ComponentMarkup.Proofs.Script.Brackets
import ComponentMarkup.Proofs.Script.BracketTokens
import ComponentMarkup.Proofs.Script.BracketSteps
import ComponentMarkup.Proofs.Script.BracketRules
import ComponentMarkup.Proofs.Document.UnclosedBrackets
import ComponentMarkup.Proofs.Tree.CachedFacts
import ComponentMarkup.Proofs.Markup.NeutralCommands
import ComponentMarkup.Proofs.Program.Literals
import ComponentMarkup.Proofs.Render.ExportedSource
import ComponentMarkup.Proofs.Script.SafeSteps
import ComponentMarkup.Proofs.Script.SafeRules
import ComponentMarkup.Proofs.Text.LineEnds
import ComponentMarkup.Proofs.Document.FaithfulPositions
import ComponentMarkup.Proofs.Program.Strings
import ComponentMarkup.Proofs.Markup.Arrangement
import ComponentMarkup.Proofs.Markup.ComposedContent
import ComponentMarkup.Proofs.Markup.ComposedBlocks
import ComponentMarkup.Proofs.Document.ComposedTrees
import ComponentMarkup.Proofs.Render.Spoken
import ComponentMarkup.Proofs.Render.SpokenMarkup
import ComponentMarkup.Proofs.Render.SpokenText
