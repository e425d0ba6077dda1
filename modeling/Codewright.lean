import Codewright.Text.Classes
import Codewright.Text.Space
import Codewright.Text.Lines
import Codewright.Text.Search
import Codewright.Text.Quoted
import Codewright.Source.Span
import Codewright.Source.Diagnostic
import Codewright.Php.Token
import Codewright.Php.SyntaxError
import Codewright.Php.Lexer
import Codewright.Php.Tree
import Codewright.Php.Printer
import Codewright.Php.Grammar.Operators
import Codewright.Php.Parser
import Codewright.Json.Text
import Codewright.Json.Parse
import Codewright.Php.Exchange.Tree
import Codewright.Php.Exchange.TreeReader
import Codewright.Json.Record
import Codewright.Php.Summary
import Codewright.Php.Revision
import Codewright.Text.Pattern
import Codewright.Css.Summary
import Codewright.Css.Revision
import Codewright.Script.Summary
import Codewright.Script.Revision
import Codewright.Json.Document
import Codewright.Language.Settings
import Codewright.Language.Extension
import Codewright.Language.Builtin
import Codewright.Language.Registry
import Codewright.Workshop.Basic
import Codewright.Proofs.Php.Revision
import Codewright.Proofs.Php.CastWords
import Codewright.Proofs.Php.Grouping
import Codewright.Proofs.Php.CommentCount
import Codewright.Proofs.Php.BlindStatements
import Codewright.Proofs.Php.Unrevised
import Codewright.Proofs.Php.BodySnippet
import Codewright.Proofs.Php.CreatedClass
import Codewright.Proofs.Json.Entries
import Codewright.Proofs.Json.Path
import Codewright.Proofs.Php.Termination
import Codewright.Proofs.Php.Fork
import Codewright.Proofs.Php.Locality
import Codewright.Proofs.Php.Tiling
import Codewright.Proofs.Php.InlineHtml
import Codewright.Proofs.Php.IndentWidth
import Codewright.Proofs.Css.RemovedRule
import Codewright.Proofs.Css.UpdatedProperty
import Codewright.Proofs.Css.AddedBlock
import Codewright.Proofs.Css.KeptBlocks
import Codewright.Proofs.Css.ValidSheet
import Codewright.Proofs.Css.CreatedText
import Codewright.Proofs.Css.CreatedSheet
import Codewright.Proofs.Script.KeptLiterals
import Codewright.Proofs.Script.CreatedClass
import Codewright.Proofs.Script.ImportPlace
import Codewright.Proofs.Php.RevisedSummary
import Codewright.Proofs.Php.RevisedModifiers
import Codewright.Proofs.Php.LiteralValue
import Codewright.Proofs.Php.TypedParameters
import Codewright.Proofs.Php.DescribedMembers
import Codewright.Proofs.Php.CommentOrder
import Codewright.Proofs.Php.SelfDelimiting
import Codewright.Proofs.Php.DocBlock
import Codewright.Proofs.Php.DeclaredClass
import Codewright.Proofs.Css.BlockRanges
import Codewright.Proofs.Json.Merge
import Codewright.Proofs.Json.Removal
import Codewright.Proofs.Php.LocalExpressions
import Codewright.Proofs.Php.LocalStatements
import Codewright.Proofs.Php.LastTokens
import Codewright.Proofs.Php.LeadingNames
import Codewright.Proofs.Php.AlternativeSyntax
import Codewright.Proofs.Php.StatementLists
import Codewright.Proofs.Language.Registry
import Codewright.Proofs.Json.Indentation
import Codewright.Proofs.Text.MaskOffsets
import Codewright.Proofs.Text.Nesting
import Codewright.Proofs.Script.AddedText
