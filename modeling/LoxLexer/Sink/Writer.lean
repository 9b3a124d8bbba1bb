import LoxLexer.Text.Utf8

/-!
# Writers that may fail

A writer keeps the bytes written so far.  It may have room for a limited
number of bytes only, and it may be broken for a time.  What does not fit is
cut off, wherever that falls, and counts as a failure; a broken writer takes
nothing at all.  Writing in pieces ends with the first piece that does not fit.
-/

namespace LoxLexer

/-- Why a write failed. -/
inductive WriteFailure where
  | full
  | broken
deriving DecidableEq, Repr

/-- The word for a failure in messages. -/
def WriteFailure.message : WriteFailure → List Char
  | full => "full".toList
  | broken => "broken".toList

/-- Bytes written so far, the number of bytes that there is room for, if that
is limited, and whether writing is impossible at present. -/
structure Writer where
  written : Array UInt8 := #[]
  limit : Option Nat := none
  isBroken : Bool := false
deriving DecidableEq, Repr

namespace Writer

/-- The bytes that there is still room for, as many of the given ones as fit. -/
def fitting (w : Writer) (bytes : List UInt8) : List UInt8 :=
  match w.limit with
  | some limit => bytes.take (limit - w.written.size)
  | none => bytes

/-- Writes as many of the bytes as can be written, and says whether that was
less than all. -/
def write (w : Writer) (bytes : List UInt8) : Option WriteFailure × Writer :=
  if w.isBroken then (some .broken, w)
  else
    let kept := w.fitting bytes
    let after := { w with written := w.written ++ kept }
    if kept.length < bytes.length then (some .full, after) else (none, after)

/-- Writes the encoding of a text. -/
def writeText (w : Writer) (text : List Char) : Option WriteFailure × Writer :=
  w.write (Utf8.encode text)

/-- Writes bytes piece by piece, until a piece cannot be written as a whole.
An empty piece is not written at all. -/
def writePieces (w : Writer) : List (List UInt8) → Option WriteFailure × Writer
  | [] => (none, w)
  | [] :: pieces => w.writePieces pieces
  | (b :: bs) :: pieces =>
    match w.write (b :: bs) with
    | (some failure, after) => (some failure, after)
    | (none, after) => after.writePieces pieces

end Writer

end LoxLexer
