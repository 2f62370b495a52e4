import PlZero.CommandLine.FileTree.Usual
import PlZero.Main
import PlZero.Proofs.Tree
import PlZero.Proofs.Progress
import PlZero.Proofs.TreeRun
import PlZero.Proofs.BlockRun
import PlZero.Proofs.Items
import PlZero.Proofs.Recognition
import PlZero.Proofs.StaticRules
import PlZero.Proofs.TreeCode
import PlZero.Proofs.Translation
import PlZero.Proofs.C.Scanner
import PlZero.Proofs.C.Fragments
import PlZero.Proofs.C.Code
import PlZero.Proofs.C.Grammar
import PlZero.Proofs.C.Statements
import PlZero.Proofs.C.Control
import PlZero.Proofs.C.Scoping
import PlZero.Proofs.C.Frames
import PlZero.Proofs.Places
import PlZero.Proofs.Visits
import PlZero.Proofs.Uses
import PlZero.Proofs.C.Alignment
import PlZero.Proofs.C.Sites
import PlZero.Proofs.C.Resolution
import PlZero.Proofs.Sinks
import PlZero.Proofs.Limits
import PlZero.Proofs.Buffers
import PlZero.Proofs.C.Calls
import PlZero.Proofs.Lookahead
import PlZero.Proofs.SyntaxErrors
import PlZero.Proofs.Values
import PlZero.Proofs.C.Readings
import PlZero.Proofs.C.Expressions
import PlZero.Proofs.C.Evaluation
import PlZero.Proofs.Fetching
import PlZero.Proofs.Layout
import PlZero.Proofs.Agreement
import PlZero.Proofs.Lexemes
import PlZero.Proofs.LongestMatch
import PlZero.Proofs.Unbroken
import PlZero.Proofs.Written
import PlZero.Proofs.Reports
import PlZero.Proofs.Trailer
import PlZero.Proofs.C.Literals
import PlZero.Proofs.Nesting
import PlZero.Proofs.C.Distinct
import PlZero.Proofs.C.Hygiene
import PlZero.Proofs.C.WellQuoted
import PlZero.Proofs.Histories
import PlZero.Proofs.Blame
import PlZero.Proofs.FileTrees
import PlZero.Proofs.Commands
import PlZero.Proofs.Violations
import PlZero.Proofs.Environments
import PlZero.Proofs.Restoration
import PlZero.Proofs.C.Boundaries
import PlZero.Proofs.Respelling
import PlZero.Proofs.Lines
import PlZero.Proofs.Listings
import PlZero.Proofs.C.Delimiters
import PlZero.Proofs.LexerCalls
import PlZero.Proofs.CharacterLoop
import PlZero.Proofs.Termination
import PlZero.Proofs.RefusedCommands
import PlZero.Proofs.Numbers
import PlZero.Proofs.Unspelled
import PlZero.Proofs.C.Numerals
