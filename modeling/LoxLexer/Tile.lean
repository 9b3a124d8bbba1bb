import LoxLexer.Token.Basic
import LoxLexer.Fault
import LoxLexer.Comment

/-!
# Tiles

A source is read as a row of tiles, each a nonempty stretch of characters
with one reading: a token, a fault, or blank, which is white space or a
comment and leaves no trace.  `Tile.first` splits the first tile off a source
that is not empty.

* `Tile.text_first_append`: a tile and what is left make up the source.
* `Tile.length_rest_lt`: what is left is shorter, so a source has finitely
  many tiles.
-/

namespace LoxLexer

/-- A character that may begin a word. Letters are those of ASCII. -/
def isWordStart (c : Char) : Bool := c.isAlpha || c == '_'

/-- A character that may go on with a word. -/
def isWordPart (c : Char) : Bool := isWordStart c || c.isDigit

/-- White space: the blank, the tab and the two characters that end lines. -/
def isSpace (c : Char) : Bool := c == ' ' || c == '\t' || c == '\r' || c == '\n'

/-- What a stretch of the source is read as. -/
inductive Reading where
  | blank
  | token (kind : Kind) (literal : Option Literal)
  | fault (fault : Fault)
deriving DecidableEq, Repr

/-- A stretch of the source with its reading. -/
structure Tile where
  text : List Char
  reading : Reading
deriving DecidableEq, Repr

namespace Tile

/-- A comment that runs to the end of its line. The newline is not part of it. -/
def lineComment (cs : List Char) : Tile × List Char :=
  (⟨'#' :: cs.takeWhile (· != '\n'), .blank⟩, cs.dropWhile (· != '\n'))

/-- A block comment, of which the opening mark has been read. One that is not
closed takes all that is left. -/
def blockComment (cs : List Char) : Tile × List Char :=
  match afterBlock 1 cs with
  | some rest => (⟨'/' :: '*' :: cs.take (cs.length - rest.length), .blank⟩, rest)
  | none => (⟨'/' :: '*' :: cs, .fault .unterminatedBlockComment⟩, [])

/-- A string, of which the opening quote has been read: all up to the next
quote, lines and all. One that is not closed takes all that is left. -/
def quoted (cs : List Char) : Tile × List Char :=
  let contents := cs.takeWhile (· != '"')
  match cs.dropWhile (· != '"') with
  | q :: rest => (⟨'"' :: contents ++ [q], .token .string (some (.string contents))⟩, rest)
  | [] => (⟨'"' :: contents, .fault .unterminatedString⟩, [])

/-- A numeral that begins with the digit `c`. A point belongs to it only if a
digit follows the point. -/
def numeral (c : Char) (cs : List Char) : Tile × List Char :=
  let whole := c :: cs.takeWhile Char.isDigit
  let plain (rest : List Char) : Tile × List Char :=
    (⟨whole, .token .number (some (.number (.ofNumeral whole [])))⟩, rest)
  match cs.dropWhile Char.isDigit with
  | '.' :: rest =>
    let fraction := rest.takeWhile Char.isDigit
    if fraction = [] then plain ('.' :: rest)
    else
      (⟨whole ++ '.' :: fraction, .token .number (some (.number (.ofNumeral whole fraction)))⟩,
        rest.dropWhile Char.isDigit)
  | rest => plain rest

/-- A keyword or an identifier that begins with `c`. -/
def word (c : Char) (cs : List Char) : Tile × List Char :=
  let text := c :: cs.takeWhile isWordPart
  (⟨text, .token (.ofWord text) none⟩, cs.dropWhile isWordPart)

/-- A character that is a symbol by itself, or else has no place in a source. -/
def single (c : Char) (cs : List Char) : Tile × List Char :=
  match Symbol.ofChar? c with
  | some s => (⟨[c], .token (.symbol s) none⟩, cs)
  | none => (⟨[c], .fault (.unexpectedCharacter c)⟩, cs)

/-- The longest symbol that begins with `c`, or a stray character. -/
def symbol (c : Char) (cs : List Char) : Tile × List Char :=
  match cs with
  | d :: ds =>
    match Symbol.ofPair? c d with
    | some s => (⟨[c, d], .token (.symbol s) none⟩, ds)
    | none => single c cs
  | [] => single c cs

/-- The first tile of the source `c :: cs`, and what is left after it. -/
def first (c : Char) (cs : List Char) : Tile × List Char :=
  if isSpace c then (⟨[c], .blank⟩, cs)
  else if c = '#' then lineComment cs
  else if c = '"' then quoted cs
  else if c.isDigit then numeral c cs
  else if isWordStart c then word c cs
  else
    match c, cs with
    | '/', '*' :: rest => blockComment rest
    | _, _ => symbol c cs

/-- No tile is empty, and a tile and what is left make up the source. -/
def Splits (source : List Char) (split : Tile × List Char) : Prop :=
  split.1.text ≠ [] ∧ split.1.text ++ split.2 = source

/-- A comment goes to the end of its line and leaves the rest of the source. -/
theorem lineComment_splits (cs : List Char) : Splits ('#' :: cs) (lineComment cs) := by
  simp [Splits, lineComment]

/-- A block comment takes in what its closing mark leaves, or else all of the source. -/
theorem blockComment_splits (cs : List Char) : Splits ('/' :: '*' :: cs) (blockComment cs) := by
  unfold blockComment
  split
  · next rest h =>
    obtain ⟨body, rfl⟩ := suffix_of_afterBlock h
    simp [Splits]
  · simp [Splits]

/-- A string takes in its closing quote, or else all of the source. -/
theorem quoted_splits (cs : List Char) : Splits ('"' :: cs) (quoted cs) := by
  have h := List.takeWhile_append_dropWhile (p := (· != '"')) (l := cs)
  unfold quoted
  split
  · next q rest hd => simpa [Splits, hd] using h
  · next hd => simpa [Splits, hd] using h

/-- A numeral takes in the point only together with the places behind it. -/
theorem numeral_splits (c : Char) (cs : List Char) : Splits (c :: cs) (numeral c cs) := by
  have h := List.takeWhile_append_dropWhile (p := Char.isDigit) (l := cs)
  unfold numeral
  split
  · next rest hd =>
    rw [hd] at h
    dsimp only
    split
    · simpa [Splits] using h
    · simpa [Splits] using h
  · simp [Splits]

/-- A word takes in its first character whatever is behind that. -/
theorem word_splits (c : Char) (cs : List Char) : Splits (c :: cs) (word c cs) := by
  simp [Splits, word]

/-- A single character is taken in, whether it is a symbol or not. -/
theorem single_splits (c : Char) (cs : List Char) : Splits (c :: cs) (single c cs) := by
  unfold single
  split <;> simp [Splits]

/-- A symbol takes in one character or two. -/
theorem symbol_splits (c : Char) (cs : List Char) : Splits (c :: cs) (symbol c cs) := by
  unfold symbol
  split
  · split
    · simp [Splits]
    · exact single_splits c _
  · exact single_splits c _

/-- Whatever a source begins with, its first tile is a front of it. -/
theorem first_splits (c : Char) (cs : List Char) : Splits (c :: cs) (first c cs) := by
  unfold first
  split
  · simp [Splits]
  split
  · next h => subst h; exact lineComment_splits cs
  split
  · next h => subst h; exact quoted_splits cs
  split
  · exact numeral_splits c cs
  split
  · exact word_splits c cs
  split
  · exact blockComment_splits _
  · exact symbol_splits c cs

/-- The first tile of a source is not empty. -/
theorem text_first_ne_nil (c : Char) (cs : List Char) : (first c cs).1.text ≠ [] :=
  (first_splits c cs).1

/-- The first tile and what is left make up the source. -/
theorem text_first_append (c : Char) (cs : List Char) :
    (first c cs).1.text ++ (first c cs).2 = c :: cs :=
  (first_splits c cs).2

/-- What is left after the first tile is shorter than the source. -/
theorem length_rest_lt (c : Char) (cs : List Char) :
    (first c cs).2.length < (c :: cs).length := by
  have hpos := List.length_pos_iff.mpr (text_first_ne_nil c cs)
  have hlen := congrArg List.length (text_first_append c cs)
  rw [List.length_append] at hlen
  omega

end Tile

end LoxLexer
