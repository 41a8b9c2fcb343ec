import EcmaLex.Context
import EcmaLex.Edition
import EcmaLex.Fault
import EcmaLex.Lexeme.Basic
import EcmaLex.Lexeme.Comment
import EcmaLex.Lexeme.Name
import EcmaLex.Lexeme.Numeral
import EcmaLex.Lexeme.Operator
import EcmaLex.Lexeme.Quotation
import EcmaLex.Lexeme.RegExp
import EcmaLex.Lexeme.Template
import EcmaLex.Lexer
import EcmaLex.Nesting
import EcmaLex.Rule.Basic
import EcmaLex.Rule.Table
import EcmaLex.Settings
import EcmaLex.Settings.Document
import EcmaLex.Source.Cursor
import EcmaLex.Source.Location
import EcmaLex.Text.Ascii
import EcmaLex.Text.Basic
import EcmaLex.Text.Combining
import EcmaLex.Text.Decimal
import EcmaLex.Text.Lines
import EcmaLex.Text.Quoted
import EcmaLex.Text.Unassigned
import EcmaLex.Token.Basic
import EcmaLex.Token.Kind
import EcmaLex.Toml.Document
import EcmaLex.Toml.Library
import EcmaLex.Toml.Scalar
import EcmaLex.Toml.Scientific
import EcmaLex.Toml.Table
import EcmaLex.Toml.Value
import EcmaLex.Proofs.Run
import EcmaLex.Proofs.Partition
import EcmaLex.Proofs.Dispatch
import EcmaLex.Proofs.Introduced
import EcmaLex.Proofs.Band
import EcmaLex.Proofs.Power
import EcmaLex.Proofs.Piece
import EcmaLex.Proofs.Nesting
import EcmaLex.Proofs.BraceDiscipline
import EcmaLex.Proofs.Lines
import EcmaLex.Proofs.Checked
import EcmaLex.Proofs.Offset.Basic
import EcmaLex.Proofs.Offset.Numeral
import EcmaLex.Proofs.Offset.Quoted
import EcmaLex.Proofs.Offset.Name
import EcmaLex.Proofs.Offset.Slash
import EcmaLex.Proofs.Offset.Mark
import EcmaLex.Proofs.Offset.Table
import EcmaLex.Proofs.Offset.Line
import EcmaLex.Proofs.Offset.Scan
import EcmaLex.Proofs.Frame
import EcmaLex.Proofs.Embedding
import EcmaLex.Proofs.OneLine
import EcmaLex.Proofs.LexemeEnd
import EcmaLex.Proofs.Location
import EcmaLex.Proofs.Numeral
import EcmaLex.Proofs.Rest.Shortens
import EcmaLex.Proofs.Rest.Numeral
import EcmaLex.Proofs.Rest.Lexeme
import EcmaLex.Proofs.Rest.Select
import EcmaLex.Proofs.Rest.Run
import EcmaLex.Proofs.Prefix
import EcmaLex.Proofs.LineByLine
import EcmaLex.Proofs.Blank
import EcmaLex.Proofs.History
import EcmaLex.Proofs.Slash
import EcmaLex.Proofs.WordBoundary
import EcmaLex.Proofs.Limit
import EcmaLex.Proofs.Faults
import EcmaLex.Proofs.Conservative
import EcmaLex.Proofs.Unclosed
import EcmaLex.Proofs.Opening
import EcmaLex.Proofs.Diagnosis
import EcmaLex.Proofs.WordKind
import EcmaLex.Proofs.LineStart
import EcmaLex.Proofs.Balance
import EcmaLex.Proofs.Acceptance
import EcmaLex.Proofs.Form
import EcmaLex.Proofs.Notation
import EcmaLex.Proofs.Quotation
import EcmaLex.Proofs.Stop
import EcmaLex.Proofs.RegExp
import EcmaLex.Proofs.Name
import EcmaLex.Proofs.PieceByPiece
import EcmaLex.Proofs.Terminators
import EcmaLex.Proofs.Counters
import EcmaLex.Proofs.Operator
import EcmaLex.Proofs.Toml
import EcmaLex.Proofs.Settings
