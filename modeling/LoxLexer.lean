import LoxLexer.Cursor.Iteration
import LoxLexer.Sink.Diagnostics
import LoxLexer.Sink.Reporter
import LoxLexer.Session.Run
import LoxLexer.Main
import LoxLexer.Proofs.LongestMatch
import LoxLexer.Proofs.Lines
import LoxLexer.Proofs.RoundTrip
import LoxLexer.Proofs.Resumption
import LoxLexer.Proofs.LineByLine
import LoxLexer.Proofs.Iteration
import LoxLexer.Proofs.Finality
import LoxLexer.Proofs.Recovery
import LoxLexer.Proofs.Opacity
import LoxLexer.Proofs.LineEnds
import LoxLexer.Proofs.Listing
import LoxLexer.Proofs.Reader.Soundness
import LoxLexer.Proofs.Reader.Progress
import LoxLexer.Proofs.Sinks
import LoxLexer.Proofs.Trail
import LoxLexer.Proofs.Decoding
import LoxLexer.Proofs.Reporting
import LoxLexer.Proofs.Standing
import LoxLexer.Proofs.Script
import LoxLexer.Proofs.CommentGrammar
import LoxLexer.Proofs.InputLines
import LoxLexer.Proofs.Logging
import LoxLexer.Proofs.Prompt
import LoxLexer.Proofs.Modes
import LoxLexer.Proofs.Number.Display
import LoxLexer.Proofs.Juxtaposition
import LoxLexer.Proofs.TokenEquality
import LoxLexer.Proofs.Verbosity
