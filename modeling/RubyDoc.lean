import RubyDoc.Analysis.Constant
import RubyDoc.Analysis.Parameter
import RubyDoc.Analysis.Raised
import RubyDoc.Analysis.Result
import RubyDoc.Analysis.Value
import RubyDoc.Block.Builder
import RubyDoc.Block.Existing
import RubyDoc.Block.Tag
import RubyDoc.Command.Execute
import RubyDoc.Command.Init
import RubyDoc.Command.Line
import RubyDoc.Command.Listings
import RubyDoc.Command.Option
import RubyDoc.Command.Run
import RubyDoc.Command.Session
import RubyDoc.Comment.Line
import RubyDoc.Comment.Run
import RubyDoc.Console
import RubyDoc.Double
import RubyDoc.Edit.Document
import RubyDoc.Edit.Plan
import RubyDoc.Edit.Planning
import RubyDoc.Environment
import RubyDoc.Failure
import RubyDoc.FileSystem
import RubyDoc.Filter.File
import RubyDoc.Filter.Member
import RubyDoc.Main
import RubyDoc.Outline.Definition
import RubyDoc.Outline.Item
import RubyDoc.Outline.Walk
import RubyDoc.Path
import RubyDoc.Pattern.Engine
import RubyDoc.Pattern.Glob
import RubyDoc.Pattern.Ignore
import RubyDoc.Pattern.Regex
import RubyDoc.Pattern.Regex.Reader
import RubyDoc.Pattern.Regex.Token
import RubyDoc.Settings.Basic
import RubyDoc.Settings.Document
import RubyDoc.Settings.Overrides
import RubyDoc.Settings.Reading
import RubyDoc.Settings.Summary
import RubyDoc.Settings.Template
import RubyDoc.Signature.Basic
import RubyDoc.Signature.Bracket
import RubyDoc.Signature.Declaration
import RubyDoc.Signature.DocType
import RubyDoc.Signature.Files
import RubyDoc.Signature.Index
import RubyDoc.Signature.Lookup
import RubyDoc.Signature.MethodType
import RubyDoc.Syntax.Grammar
import RubyDoc.Syntax.Kind
import RubyDoc.Syntax.Listing
import RubyDoc.Syntax.Node
import RubyDoc.Syntax.Source
import RubyDoc.Text.Basic
import RubyDoc.Text.Case
import RubyDoc.Text.CaseTable
import RubyDoc.Text.CharClass
import RubyDoc.Text.GraphicTable
import RubyDoc.Text.Lines
import RubyDoc.Text.Quoted
import RubyDoc.Text.Sym
import RubyDoc.Text.Utf8
import RubyDoc.Text.Utf8.Fault
import RubyDoc.Text.WordTable
import RubyDoc.Value
import RubyDoc.Yaml.Block
import RubyDoc.Yaml.Cursor
import RubyDoc.Yaml.Document
import RubyDoc.Yaml.Node
import RubyDoc.Yaml.Node.Reader
import RubyDoc.Yaml.Plain
import RubyDoc.Yaml.Quoted
import RubyDoc.Yaml.Scalar
import RubyDoc.Yaml.Tag
import RubyDoc.Yaml.Token
import RubyDoc.Yaml.Token.Lexer
import RubyDoc.Proofs.Text.LineView
import RubyDoc.Proofs.Text.Trim
import RubyDoc.Proofs.Block.Builder
import RubyDoc.Proofs.Edit.Stanza
import RubyDoc.Proofs.Edit.Place
import RubyDoc.Proofs.Edit.PlanRun
import RubyDoc.Proofs.Edit.Group
import RubyDoc.Proofs.Edit.Layout
import RubyDoc.Proofs.Edit.Untouched
import RubyDoc.Proofs.Edit.Ranges
import RubyDoc.Proofs.Edit.Again
import RubyDoc.Proofs.Edit.InsertAgain
import RubyDoc.Proofs.Comment.Marker
import RubyDoc.Proofs.Block.Existing
import RubyDoc.Proofs.Analysis.Raised
import RubyDoc.Proofs.Block.Documented
import RubyDoc.Proofs.Block.Missing
import RubyDoc.Proofs.Block.Decoded
import RubyDoc.Proofs.Edit.MergeAgain
import RubyDoc.Proofs.Edit.Renew
import RubyDoc.Proofs.Edit.Replacing
import RubyDoc.Proofs.Edit.ReplaceAgain
import RubyDoc.Proofs.Edit.Forgotten
import RubyDoc.Proofs.Outline.Statement
import RubyDoc.Proofs.Outline.Deed
import RubyDoc.Proofs.Outline.Scan
import RubyDoc.Proofs.Outline.Resolution
import RubyDoc.Proofs.Outline.Frame
import RubyDoc.Proofs.Outline.Apart
import RubyDoc.Proofs.Outline.Mention
import RubyDoc.Proofs.Outline.Plain
import RubyDoc.Proofs.Outline.ModuleFunction
import RubyDoc.Proofs.Outline.Reclassify
import RubyDoc.Proofs.Signature.Closed
import RubyDoc.Proofs.Signature.TypeExpr
import RubyDoc.Proofs.Signature.Translation
import RubyDoc.Proofs.Signature.Overload
import RubyDoc.Proofs.Signature.TypeText
import RubyDoc.Proofs.Signature.Parameter
import RubyDoc.Proofs.Signature.MethodType
import RubyDoc.Proofs.Edit.Directives
import RubyDoc.Proofs.Edit.Splice
import RubyDoc.Proofs.Syntax.Preorder
import RubyDoc.Proofs.Text.Break
import RubyDoc.Proofs.Analysis.Break
import RubyDoc.Proofs.Block.OneLine
import RubyDoc.Proofs.Block.Recognised
import RubyDoc.Proofs.Text.Record
import RubyDoc.Proofs.Signature.Declaration
import RubyDoc.Proofs.Signature.Forest
import RubyDoc.Proofs.Signature.Index
import RubyDoc.Proofs.Syntax.Remark
import RubyDoc.Proofs.Analysis.Remark
import RubyDoc.Proofs.Analysis.Unify
import RubyDoc.Proofs.Analysis.Tail
import RubyDoc.Proofs.Analysis.Arms
import RubyDoc.Proofs.Outline.Remark
import RubyDoc.Proofs.Block.Remark
import RubyDoc.Proofs.Signature.Steady
import RubyDoc.Proofs.Filter.Member
import RubyDoc.Proofs.Edit.Document
import RubyDoc.Proofs.FileSystem
import RubyDoc.Proofs.Command.Session
import RubyDoc.Proofs.Command.Run
import RubyDoc.Proofs.Command.Account
import RubyDoc.Proofs.Command.Failing
import RubyDoc.Proofs.Syntax.Located
import RubyDoc.Proofs.Outline.Collected
import RubyDoc.Proofs.Edit.Independent
import RubyDoc.Proofs.Signature.AskedOnce
import RubyDoc.Proofs.Signature.Container
import RubyDoc.Proofs.Text.Utf8
import RubyDoc.Proofs.Syntax.Source
import RubyDoc.Proofs.Comment.Found
import RubyDoc.Proofs.Signature.LeadingBar
import RubyDoc.Proofs.Signature.Literal.Requoted
import RubyDoc.Proofs.Signature.Literal.DocType
import RubyDoc.Proofs.Signature.Literal.Overload
import RubyDoc.Proofs.Signature.Literal.MethodType
import RubyDoc.Proofs.Signature.Literal.Line
import RubyDoc.Proofs.Signature.Literal.Member
import RubyDoc.Proofs.Signature.Literal.Index
import RubyDoc.Proofs.Signature.Literal.Shown
import RubyDoc.Proofs.Signature.Literal.Cut
import RubyDoc.Proofs.Signature.Literal.Opaque
import RubyDoc.Proofs.Text.Split
import RubyDoc.Proofs.Edit.Ending
import RubyDoc.Proofs.Path
import RubyDoc.Proofs.Distinct
import RubyDoc.Proofs.Syntax.Related
import RubyDoc.Proofs.Analysis.Search
import RubyDoc.Proofs.Analysis.Inserted
import RubyDoc.Proofs.Analysis.Repeat
import RubyDoc.Proofs.Block.Conditional
import RubyDoc.Proofs.Settings.Merge
import RubyDoc.Proofs.Settings.Alike
import RubyDoc.Proofs.Settings.Partial
import RubyDoc.Proofs.Signature.TopLevel
import RubyDoc.Proofs.Syntax.Fault
import RubyDoc.Proofs.Syntax.Listing
