import LoxLexer.Event
import LoxLexer.Log.Filter
import LoxLexer.Log.Line

/-!
# Transcripts

A transcript is what a run of the command has to say: the listing on standard
output, and in the order in which they arise the notes for standard error,
which are log records, lexical errors and messages about the run itself.  How
much of the log is shown, and how it is dressed, is not part of a transcript
but of the console that it is shown on.
-/

namespace LoxLexer

namespace Session

/-- How a run came out. -/
inductive Status where
  | success
  | dataError
  | noInput
  | ioError
  | brokenDown
deriving DecidableEq, Repr

/-- The exit code of a run. -/
def Status.code : Status → Nat
  | success => 0
  | dataError => 65
  | noInput => 66
  | ioError => 74
  | brokenDown => 101

/-- Something to be said on standard error. -/
inductive Note where
  | log (record : Log.Record)
  | diagnostic (error : LexicalError)
  | notice (text : List Char)
deriving DecidableEq, Repr

/-- Where notes are shown: the filter for log records, whether lines are
coloured, and the stamp that they bear. -/
structure Console where
  filter : Log.Filter
  color : Bool
  stamp : List Char

namespace Note

/-- The note is shown. Only log records can be held back. -/
def isShown (console : Console) : Note → Bool
  | log record => console.filter.shows record
  | _ => true

/-- The line of a note. -/
def line (console : Console) : Note → List Char
  | log record => record.render console.color console.stamp
  | diagnostic e => e.render
  | notice text => text

/-- The notes that the events of a scan give rise to: each event as a log
record, and behind that of an error the error itself. -/
def ofEvent (event : Event) : List Note :=
  match event with
  | .error e => [log event.record, diagnostic e]
  | _ => [log event.record]

end Note

/-- All that a run has to say, and how it came out. -/
structure Transcript where
  output : List Char
  notes : List Note
  status : Status
deriving DecidableEq, Repr

namespace Transcript

/-- A transcript and another one behind it, which decides how the run came out. -/
def andThen (t u : Transcript) : Transcript :=
  ⟨t.output ++ u.output, t.notes ++ u.notes, u.status⟩

/-- The text on standard error: a line for each note that is shown. -/
def errorText (t : Transcript) (console : Console) : List Char :=
  (t.notes.filter (Note.isShown console)).flatMap (fun note => note.line console ++ ['\n'])

end Transcript

end Session

end LoxLexer
