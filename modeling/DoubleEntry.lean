import DoubleEntry.Text.Position
import DoubleEntry.Text.Lines
import DoubleEntry.Text.Quoted
import DoubleEntry.Text.Blank
import DoubleEntry.Text.Capital
import DoubleEntry.Text.Escaped
import DoubleEntry.Text.Ascending
import DoubleEntry.Money
import DoubleEntry.Amount
import DoubleEntry.Category
import DoubleEntry.Date
import DoubleEntry.Lexeme
import DoubleEntry.Token
import DoubleEntry.Path
import DoubleEntry.Files
import DoubleEntry.FileTree
import DoubleEntry.Fault
import DoubleEntry.Cursor
import DoubleEntry.Leg
import DoubleEntry.Leg.Read
import DoubleEntry.Entry
import DoubleEntry.Account
import DoubleEntry.Directive
import DoubleEntry.Statement
import DoubleEntry.Script
import DoubleEntry.Traced
import DoubleEntry.Chart
import DoubleEntry.Progress
import DoubleEntry.Visit
import DoubleEntry.Draft
import DoubleEntry.Ledger
import DoubleEntry.Report.Layout
import DoubleEntry.Report.Row
import DoubleEntry.Report.Balances
import DoubleEntry.Report.TrialBalance
import DoubleEntry.Report.Months
import DoubleEntry.CommandLine
import DoubleEntry.Main
import DoubleEntry.Proofs.Reading
import DoubleEntry.Proofs.Posting
import DoubleEntry.Proofs.Checking
import DoubleEntry.Proofs.Outline
import DoubleEntry.Proofs.Script
import DoubleEntry.Proofs.Sequence
import DoubleEntry.Proofs.Spelling
import DoubleEntry.Proofs.Grammar
import DoubleEntry.Proofs.Items
import DoubleEntry.Proofs.Walk
import DoubleEntry.Proofs.SingleFile
import DoubleEntry.Proofs.Bytes
import DoubleEntry.Proofs.Report.Layout
import DoubleEntry.Proofs.Month
import DoubleEntry.Proofs.Written
import DoubleEntry.Proofs.Report.Row
import DoubleEntry.Proofs.Report.TrialBalance
import DoubleEntry.Proofs.Width
import DoubleEntry.Proofs.Report.RollForward
import DoubleEntry.Proofs.Report.Months
import DoubleEntry.Proofs.Patterns
import DoubleEntry.Proofs.Places
import DoubleEntry.Proofs.Standing
import DoubleEntry.Proofs.Slices
import DoubleEntry.Proofs.Flaws
import DoubleEntry.Proofs.Sources
import DoubleEntry.Proofs.Located
import DoubleEntry.Proofs.Tree
import DoubleEntry.Proofs.Isolation
import DoubleEntry.Proofs.Proper
import DoubleEntry.Proofs.Breaks
import DoubleEntry.Proofs.Seams
import DoubleEntry.Proofs.Unplaced
import DoubleEntry.Proofs.Alike
import DoubleEntry.Proofs.Beside
import DoubleEntry.Proofs.Inlining
import DoubleEntry.Proofs.LineEndings
import DoubleEntry.Proofs.Period
import DoubleEntry.Proofs.Layout
import DoubleEntry.Proofs.Longhand
import DoubleEntry.Proofs.Shorthand
import DoubleEntry.Proofs.Report.Reordered
import DoubleEntry.Proofs.Amounts
import DoubleEntry.Proofs.Fractions
import DoubleEntry.Proofs.Quoting
import DoubleEntry.Proofs.Dates
import DoubleEntry.Proofs.Report.Balances
import DoubleEntry.Proofs.Sides
import DoubleEntry.Proofs.Headroom
import DoubleEntry.Proofs.Report.Headroom
import DoubleEntry.Proofs.Directory
import DoubleEntry.Proofs.Chain
import DoubleEntry.Proofs.Rounds
import DoubleEntry.Proofs.Keys
import DoubleEntry.Proofs.Depth
