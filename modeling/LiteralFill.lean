import LiteralFill.FileTree
import LiteralFill.Main
import LiteralFill.Proofs.Fill.Renumber
import LiteralFill.Proofs.Fill.Bare
import LiteralFill.Proofs.Fill.Follows
import LiteralFill.Proofs.Fill.Outermost
import LiteralFill.Proofs.Layout.Climb
import LiteralFill.Proofs.Fill.Positions
import LiteralFill.Proofs.Printer.Prints
import LiteralFill.Proofs.Printer.Rows
import LiteralFill.Proofs.Printer.Lines
import LiteralFill.Proofs.Fill.Printed
import LiteralFill.Proofs.Fill.Renderable
import LiteralFill.Proofs.Fill.Written
import LiteralFill.Proofs.Fill.Depth
import LiteralFill.Proofs.Fill.Calls
import LiteralFill.Proofs.Fill.Cycles
import LiteralFill.Proofs.Fill.Termination
import LiteralFill.Proofs.TypeTable.Chains
import LiteralFill.Proofs.TypeName.References
import LiteralFill.Proofs.Fill.References
import LiteralFill.Proofs.Request.References
import LiteralFill.Proofs.Index.Loader
import LiteralFill.Proofs.Request.Edits
import LiteralFill.Proofs.Request.Replacements
import LiteralFill.Proofs.Typing.Literal
import LiteralFill.Proofs.Fill.Assignable
import LiteralFill.Proofs.Fill.Gathered
import LiteralFill.Proofs.Fill.Kept
import LiteralFill.Proofs.Fill.Again
import LiteralFill.Proofs.Fill.Assigned
import LiteralFill.Proofs.Fill.Seen
import LiteralFill.Proofs.Printer.Condensed
import LiteralFill.Proofs.Printer.LineBreaks
import LiteralFill.Proofs.Printer.Reflow
import LiteralFill.Proofs.Grammar.Lexeme
import LiteralFill.Proofs.Grammar.Sentence
import LiteralFill.Proofs.Grammar.Reader
import LiteralFill.Proofs.Grammar.Unambiguous
import LiteralFill.Proofs.Grammar.Stars
import LiteralFill.Proofs.Grammar.Operands
import LiteralFill.Proofs.Printer.Spelling
import LiteralFill.Proofs.Printer.ReadBack
import LiteralFill.Proofs.Printer.LooseStars
import LiteralFill.Proofs.Overlay.CutOff
import LiteralFill.Proofs.Index.Sources
import LiteralFill.Proofs.Index.PackageRoundTrip
import LiteralFill.Proofs.TypeTable.EraseField
import LiteralFill.Proofs.Fill.EraseField
import LiteralFill.Proofs.TypeName.Token
import LiteralFill.Proofs.TypeName.Tokens
import LiteralFill.Proofs.TypeName.Lexed
import LiteralFill.Proofs.TypeName.Unambiguous
import LiteralFill.Proofs.CommandLine.Given
import LiteralFill.Proofs.CommandLine.Parse
import LiteralFill.Proofs.CommandLine.Rewrites
import LiteralFill.Proofs.Locate.Innermost
import LiteralFill.Proofs.Locate.OnLine
import LiteralFill.Proofs.Fill.Gaps
import LiteralFill.Proofs.Fill.Omitted
import LiteralFill.Proofs.TypeName.Hidden
import LiteralFill.Proofs.TypeTable.Validate
import LiteralFill.Proofs.Fill.Contained
import LiteralFill.Proofs.Request.Answers
import LiteralFill.Proofs.TypeName.Imports
import LiteralFill.Proofs.Fill.OpenStructs
import LiteralFill.Proofs.SourceFiles.Locations
import LiteralFill.Proofs.Fill.Columns
import LiteralFill.Proofs.Fill.Shift
import LiteralFill.Proofs.Printer.ColumnWidths
