/-!
# Lines of bytes

Bytes are cut into lines as a reader of lines does it: a line end closes a line, and
nothing after the last one is no line.  Bytes that arrive bit by bit are cut behind
their last line end first, and what is behind it waits for more.
-/

namespace LoxLexer

/-- A line without the carriage return that ends it, if one does. -/
def dropReturn (line : List UInt8) : List UInt8 :=
  if line.getLast? = some 13 then line.dropLast else line

/-- The lines of some bytes, without their ends: a line feed, or a carriage
return and a line feed. The last line may lack its end; then a carriage return
belongs to it. -/
def linesOf (bytes : List UInt8) : List (List UInt8) :=
  match _ : bytes.dropWhile (· != 10) with
  | [] => if bytes.isEmpty then [] else [bytes]
  | _ :: rest => dropReturn (bytes.takeWhile (· != 10)) :: linesOf rest
termination_by bytes.length
decreasing_by
  next after =>
    have suffix := List.dropWhile_suffix (l := bytes) (· != 10)
    rw [after] at suffix
    exact suffix.length_le

/-- The bytes up to the last line end, and those behind it. -/
def splitEnded (bytes : List UInt8) : List UInt8 × List UInt8 :=
  ((bytes.reverse.dropWhile (· != 10)).reverse, (bytes.reverse.takeWhile (· != 10)).reverse)

end LoxLexer
