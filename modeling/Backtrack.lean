import Backtrack.Files.Tree
import Backtrack.Main
import Backtrack.Rule.Render
import Backtrack.Cli.Run
import Backtrack.Proofs.Shipped
import Backtrack.Proofs.Budget
import Backtrack.Proofs.History
import Backtrack.Proofs.Verdicts
import Backtrack.Proofs.Slice
import Backtrack.Proofs.Affording
import Backtrack.Proofs.Locality
import Backtrack.Proofs.FileLines
import Backtrack.Proofs.Legible
import Backtrack.Proofs.Readable
import Backtrack.Proofs.Courses
import Backtrack.Proofs.CallStream
import Backtrack.Proofs.Joining
import Backtrack.Proofs.Document
import Backtrack.Proofs.Reading
import Backtrack.Proofs.PrintedLines
import Backtrack.Proofs.RoundTrip
import Backtrack.Proofs.AttributeText
import Backtrack.Proofs.Spelling
import Backtrack.Proofs.Lexemes
import Backtrack.Proofs.QuotedText
import Backtrack.Proofs.AttributeSpelling
import Backtrack.Proofs.AttributeTelling
import Backtrack.Proofs.Written
import Backtrack.Proofs.AttributeLists
import Backtrack.Proofs.Prologs
import Backtrack.Proofs.QuotedValues
import Backtrack.Proofs.Exclusion
import Backtrack.Proofs.Comments
import Backtrack.Proofs.Dictation
import Backtrack.Proofs.Headers
import Backtrack.Proofs.Rows
import Backtrack.Proofs.Scopes
import Backtrack.Proofs.Skipping
import Backtrack.Proofs.Openings
import Backtrack.Proofs.Residues
import Backtrack.Proofs.Failures
import Backtrack.Proofs.Terminators
import Backtrack.Proofs.Pairing
import Backtrack.Proofs.Facing
import Backtrack.Proofs.Tracking
import Backtrack.Proofs.Alternatives
import Backtrack.Proofs.QuoteMirror
import Backtrack.Proofs.MirroredCalls
import Backtrack.Proofs.QuoteSymmetry
import Backtrack.Proofs.Rewinding
import Backtrack.Proofs.Closings
import Backtrack.Proofs.Outlasting
import Backtrack.Proofs.Truncation
import Backtrack.Proofs.Ledger
import Backtrack.Proofs.Chronicle
import Backtrack.Proofs.Reporting
import Backtrack.Proofs.Lookahead
import Backtrack.Proofs.Attempts
import Backtrack.Proofs.Protocol
import Backtrack.Proofs.Trimming
import Backtrack.Proofs.Validity
import Backtrack.Proofs.CommentTexts
import Backtrack.Proofs.ExternalIds
import Backtrack.Proofs.BrokenReferences
import Backtrack.Proofs.Traversal
import Backtrack.Proofs.Interruption
import Backtrack.Proofs.CommandLines
import Backtrack.Proofs.SteadyFiles
import Backtrack.Proofs.SeparateFiles
import Backtrack.Proofs.TextCoding
import Backtrack.Proofs.TomlTexts
import Backtrack.Proofs.TomlDocuments
import Backtrack.Proofs.StoredFiles
import Backtrack.Proofs.StoredPolicies
import Backtrack.Proofs.RangeExpressions
import Backtrack.Proofs.ByteRuns
import Backtrack.Proofs.LineLookup
