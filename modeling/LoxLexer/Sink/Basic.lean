import LoxLexer.Event

/-!
# Scanning into a sink

A scan reports each lexical error to a sink as soon as it is found, and goes
on whatever the sink does with it.  A sink is a way to take in an error: from
its state to its next state, with the events that taking it in gives rise to.

The tokens of a scan always end with the mark for the end of the file, on the
last line of the source.
-/

namespace LoxLexer

/-- What becomes of a reported error, for sinks with states of type `σ`. -/
structure Sink (σ : Type) where
  report : σ → LexicalError → σ × List Event

/-- A sink that takes errors in without events of its own. -/
def Sink.quiet {σ : Type} (take : σ → LexicalError → σ) : Sink σ :=
  ⟨fun state e => (take state e, [])⟩

/-- What a scan has produced: the tokens, the state of the sink after it, and
the events in their order. -/
structure Scan (σ : Type) where
  tokens : List Token
  sink : σ
  events : List Event

/-- What a scan has produced so far. -/
structure Progress (σ : Type) where
  tokens : Array Token
  errors : Nat
  events : Array Event
  sink : σ

namespace Progress

/-- A scan that has not yet seen anything. -/
def start {σ : Type} (state : σ) : Progress σ := ⟨#[], 0, #[], state⟩

/-- Takes in the next item: a token is kept, an error goes to the sink. -/
def observe {σ : Type} (sink : Sink σ) (p : Progress σ) : Item → Progress σ
  | .token t =>
    { p with tokens := p.tokens.push t, events := p.events.push (.token t.kind t.line) }
  | .error e =>
    let (state, raised) := sink.report p.sink e
    { p with
      errors := p.errors + 1
      events := p.events.push (.error e) ++ raised
      sink := state }

/-- Ends a scan on the last line of its source. -/
def finish {σ : Type} (p : Progress σ) (line : Nat) : Scan σ :=
  let tokens := p.tokens.push (.endOfFile line)
  ⟨tokens.toList, p.sink, (p.events.push (.finished tokens.size p.errors line)).toList⟩

end Progress

/-- Scans what is left at a cursor, reporting errors to a sink. -/
def Cursor.scanInto {σ : Type} (s : Cursor) (sink : Sink σ) (state : σ) : Scan σ :=
  let (progress, last) := s.fold (Progress.observe sink) (.start state)
  progress.finish last.line

/-- Scans a source, reporting errors to a sink. -/
def scanInto {σ : Type} (source : List Char) (sink : Sink σ) (state : σ) : Scan σ :=
  (Cursor.start source).scanInto sink state

end LoxLexer
