import LoxLexer.Session.Directory
import LoxLexer.Session.System

/-!
# Runs of the command

A run in surroundings that are known beforehand: what the working directory and
standard input hold, which filter is written, what becomes of standard output, and
the stamp that log records bear.  Such surroundings are a system, which keeps what
is written on standard output, and what is said on standard error, for later.
-/

namespace LoxLexer

namespace Session

/-! ### Standard output -/

/-- Why nothing can be written on a device that is full. -/
def deviceFull : List Char := "No space left on device (os error 28)".toList

/-- Standard output: how many bytes there is room for, if that is limited, whether
writing is impossible, and in what words the system says that it has failed. -/
structure Outlet where
  room : Option Nat
  isBroken : Bool
  cause : WriteFailure → List Char

namespace Outlet

/-- The writer on an outlet on which nothing has been written. -/
def writer (out : Outlet) : Writer := { limit := out.room, isBroken := out.isBroken }

/-- A device, which may be full. -/
def device (isFull : Bool) : Outlet :=
  ⟨if isFull then some 0 else none, false, fun _ => deviceFull⟩

end Outlet

/-! ### A system in memory -/

/-- What a run finds around it. -/
structure Surroundings where
  directory : Directory
  input : List UInt8
  logRules : Option (List Char)
  outputFull : Bool
  stamp : List Char

/-- What a run has done so far: what it has written on standard output, and its notes. -/
structure Traces where
  writer : Writer
  notes : Array Note

/-- Surroundings in which writing fails for these causes, as a system. -/
def Surroundings.system (world : Surroundings) (cause : WriteFailure → List Char) :
    System (StateM Traces) where
  content path := return (world.directory.read path).mapError ReadFailure.message
  eachLine answer := return .ok (← answerEach answer (linesOf world.input))
  write pieces := fun traces =>
    let (failure, writer) := traces.writer.writePieces pieces
    (failure.map cause, { traces with writer := writer })
  say notes := modify fun traces => { traces with notes := traces.notes ++ notes }

/-! ### Runs -/

/-- What a run leaves behind: its exit code and, unless it only gives advice
on its use, the texts on standard output and standard error. -/
inductive Outcome where
  | advice (code : Nat)
  | finished (code : Nat) (output errors : List Char)
deriving DecidableEq, Repr

/-- What a run that has come out so has to say, as a transcript. -/
def Traces.transcript (traces : Traces) (status : Status) : Transcript :=
  ⟨Utf8.decodeLossy traces.writer.written.toList, traces.notes.toList, status⟩

/-- What a run with valid arguments has to say where this is its standard output. -/
def transcriptOn (out : Outlet) (world : Surroundings) (o : Options) : Transcript :=
  let (status, traces) := Id.run (((world.system out.cause).conduct o.script).run ⟨out.writer, #[]⟩)
  traces.transcript status

/-- Runs the command where this is its standard output. -/
def runOn (out : Outlet) (world : Surroundings) (arguments : List (List Char)) : Outcome :=
  match start arguments world.logRules with
  | .stopped .version =>
    let after := (out.writer.writeText versionText).2
    .finished 0 (Utf8.decodeLossy after.written.toList) []
  | .stopped stop => .advice stop.code
  | .brokenDown => .finished Status.brokenDown.code [] (breakdownText ++ ['\n'])
  | .begun o filter =>
    let t := transcriptOn out world o
    .finished t.status.code t.output (t.errorText ⟨filter, o.color, world.stamp⟩)

/-- What a run with valid arguments has to say. -/
def transcript (world : Surroundings) (o : Options) : Transcript :=
  transcriptOn (.device world.outputFull) world o

/-- Runs the command. -/
def run (world : Surroundings) (arguments : List (List Char)) : Outcome :=
  runOn (.device world.outputFull) world arguments

end Session

end LoxLexer
