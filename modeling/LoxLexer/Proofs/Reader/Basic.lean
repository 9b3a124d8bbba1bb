import Mathlib.Data.PFun
import LoxLexer.Proofs.Reader.Lookahead
import LoxLexer.Sink.Basic

/-!
# Readers

A cursor knows what is left of its source and on which line that begins.  A
reader works on the whole source instead: it takes characters from an iterator
with lookahead, keeps the places where the present token began and where it
stands now as numbers of bytes, and cuts lexemes out of the source by these
numbers.  It counts the lines as it goes, and remembers the line on which the
present token began.

Cutting a text inside a character or beyond its end breaks a reader down, and a
loop may go on for ever.  In both cases there is no result, and what a reader
does is therefore a partial value.  A loop is the iteration of its round, which
says in which state the loop goes on or with which result it ends.

* `Reader.next`: the next item of a reader.
* `Reader.scanInto`: everything that is left, reported to a sink.
-/

namespace LoxLexer

/-- The piece of a text from byte `start` to byte `stop`. There is none if the
order is wrong or a character lies across one of the places. -/
def slice? (start stop : Nat) (text : List Char) : Option (List Char) := do
  let (front, _) ← Utf8.cut? stop text
  let (_, piece) ← Utf8.cut? start front
  return piece

/-- The number that a text of digits is read as, perhaps with a point before,
between or behind them. Signs, exponents and words for numbers are no part of
any lexeme and are left out. -/
def parseNumeral? (text : List Char) : Option Binary64 :=
  let whole := text.takeWhile Char.isDigit
  match text.dropWhile Char.isDigit with
  | [] => if whole = [] then none else some (.ofNumeral whole [])
  | '.' :: fraction =>
    if fraction.all Char.isDigit ∧ whole ++ fraction ≠ [] then some (.ofNumeral whole fraction)
    else none
  | _ => none

/-- What reading comes to where it leaves a trace: the kind and the value of a
token, or an error. -/
abbrev Verdict := Except LexicalError (Kind × Option Literal)

/-- A place in a source, with an iterator over what is behind it. `start` and
`current` count bytes; `startLine` and `line` are the lines of these places. -/
structure Reader (β : Type) where
  source : List Char
  ahead : β
  start : Nat
  current : Nat
  startLine : Nat
  line : Nat

namespace Reader

variable {β : Type} [Lookahead β]

/-- A reader at the start of a source. -/
def new (source : List Char) : Reader β :=
  ⟨source, Lookahead.ofItems (offsets 0 source), 0, 0, 1, 1⟩

/-! ### Characters -/

/-- No byte of the source is left. -/
def isAtEnd (r : Reader β) : Bool := decide (Utf8.size r.source ≤ r.current)

/-- Takes a character. -/
def advance (r : Reader β) : Option Char × Reader β :=
  match Lookahead.next r.ahead with
  | (some (place, c), ahead) => (some c, { r with ahead := ahead, current := place + c.utf8Size })
  | (none, ahead) => (none, { r with ahead := ahead })

/-- Looks at the character behind the next `n`. -/
def peek (n : Nat) (r : Reader β) : Option Char × Reader β :=
  let (item, ahead) := Lookahead.peek n r.ahead
  (item.map Prod.snd, { r with ahead := ahead })

/-- Takes a character if it is the given one. -/
def nextIs (c : Char) (r : Reader β) : Bool × Reader β :=
  let (first, r) := r.peek 0
  if first = some c then (true, r.advance.2) else (false, r)

/-- Takes two characters if they are the given ones. -/
def nextPairIs (c d : Char) (r : Reader β) : Bool × Reader β :=
  let (first, r) := r.peek 0
  if first = some c then
    let (second, r) := r.peek 1
    if second = some d then (true, r.advance.2.advance.2) else (false, r)
  else (false, r)

/-- Counts a line end. -/
def countLine (c : Char) (r : Reader β) : Reader β :=
  if c = '\n' then { r with line := r.line + 1 } else r

/-- An error on the present line. -/
def errorOf (r : Reader β) (fault : Fault) : LexicalError := ⟨fault, r.line⟩

/-- The text of the present token. -/
def lexeme (r : Reader β) : Part (List Char) := slice? r.start r.current r.source

/-! ### Loops -/

/-- One round of `advanceUntil`: takes a character unless reading stops there. -/
def untilRound (stop : Char → Bool) (r : Reader β) : Reader β ⊕ Reader β :=
  match r.peek 0 with
  | (none, r) => .inl r
  | (some c, r) => if stop c then .inl r else .inr (r.advance.2.countLine c)

/-- Takes characters up to the first one that reading stops at. -/
def advanceUntil (stop : Char → Bool) (r : Reader β) : Part (Reader β) :=
  PFun.fix (fun r => Part.some (r.untilRound stop)) r

/-- Takes a mark of a comment or else a character, and says how many comments
are open then. At the end there is nothing to take. -/
def takeMark (depth : Nat) (r : Reader β) : Option Nat × Reader β :=
  match r.nextPairIs '/' '*' with
  | (true, r) => (some (depth + 1), r)
  | (false, r) =>
    match r.nextPairIs '*' '/' with
    | (true, r) => (some (depth - 1), r)
    | (false, r) =>
      match r.advance with
      | (some c, r) => (some depth, r.countLine c)
      | (none, r) => (none, r)

/-- One round of `skipBlock`: takes a mark or a character while a comment is open. -/
def commentRound : Nat × Reader β →
    (Except LexicalError Unit × Reader β) ⊕ (Nat × Reader β)
  | (depth, r) =>
    if depth = 0 then .inl (.ok (), r)
    else
      match r.takeMark depth with
      | (some depth, r) => .inr (depth, r)
      | (none, r) => .inl (.error (r.errorOf .unterminatedBlockComment), r)

/-- Passes over the text that closes `depth` open comments. -/
def skipBlock (depth : Nat) (r : Reader β) : Part (Except LexicalError Unit × Reader β) :=
  PFun.fix (fun state => Part.some (commentRound state)) (depth, r)

/-! ### Tokens -/

/-- A string, of which the opening quote has been taken. -/
def quoted (r : Reader β) : Part (Verdict × Reader β) := do
  match (← r.advanceUntil (· == '"')).advance with
  | (none, r) => return (.error (r.errorOf .unterminatedString), r)
  | (some _, r) =>
    let lexeme ← r.lexeme
    let contents ← (slice? 1 (Utf8.size lexeme - 1) lexeme : Part (List Char))
    return (.ok (.string, some (.string contents)), r)

/-- The fraction of a numeral, if there is one: a point with digits behind it. -/
def fraction (r : Reader β) : Part (Reader β) :=
  let (first, r) := r.peek 0
  if first = some '.' then
    let (second, r) := r.peek 1
    if second.any Char.isDigit then r.advance.2.advanceUntil (!·.isDigit) else return r
  else return r

/-- A numeral, of which the first digit has been taken. -/
def numeral (r : Reader β) : Part (Verdict × Reader β) := do
  let r ← (← r.advanceUntil (!·.isDigit)).fraction
  let lexeme ← r.lexeme
  match parseNumeral? lexeme with
  | some number => return (.ok (.number, some (.number number)), r)
  | none => return (.error (r.errorOf (.invalidNumber lexeme)), r)

/-- A word, of which the first character has been taken. -/
def word (r : Reader β) : Part (Verdict × Reader β) := do
  let r ← r.advanceUntil (!isWordPart ·)
  let lexeme ← r.lexeme
  return (.ok (.ofWord lexeme, none), r)

/-- A symbol that has been taken. -/
def symbol (s : Symbol) (r : Reader β) : Part (Option Verdict × Reader β) :=
  return (some (.ok (.symbol s, none)), r)

/-- The longer of two symbols if the next character is `c`, else the shorter. -/
def either (c : Char) (long short : Symbol) (r : Reader β) : Part (Option Verdict × Reader β) :=
  match r.nextIs c with
  | (true, r) => r.symbol long
  | (false, r) => r.symbol short

/-- A comment, a division or a floor division, of which the slash has been taken. -/
def slash (r : Reader β) : Part (Option Verdict × Reader β) :=
  match r.nextIs '*' with
  | (true, r) => do
    match ← r.skipBlock 1 with
    | (.ok (), r) => return (none, r)
    | (.error e, r) => return (some (.error e), r)
  | (false, r) => r.either '/' .doubleSlash .slash

/-- What begins with the character `c`, which has been taken and settles
nothing by itself. -/
def ordinary (c : Char) (r : Reader β) : Part (Option Verdict × Reader β) :=
  if c.isDigit then do
    let (verdict, r) ← r.numeral
    return (some verdict, r)
  else if isWordStart c then do
    let (verdict, r) ← r.word
    return (some verdict, r)
  else return (some (.error (r.errorOf (.unexpectedCharacter c))), r)

/-- What begins with the character `c`, which has been taken. -/
def dispatch (c : Char) (r : Reader β) : Part (Option Verdict × Reader β) :=
  match c with
  | '(' => r.symbol .leftParen
  | ')' => r.symbol .rightParen
  | '\x7b' => r.symbol .leftBrace
  | '\x7d' => r.symbol .rightBrace
  | ',' => r.symbol .comma
  | '.' => r.symbol .dot
  | '-' => r.symbol .minus
  | '+' => r.symbol .plus
  | ';' => r.symbol .semicolon
  | '%' => r.symbol .percent
  | '*' => r.either '*' .power .star
  | '/' => r.slash
  | '!' => r.either '=' .bangEqual .bang
  | '=' => r.either '=' .equalEqual .equal
  | '<' => r.either '=' .lessEqual .less
  | '>' => r.either '=' .greaterEqual .greater
  | '#' => do return (none, ← r.advanceUntil (· == '\n'))
  | ' ' | '\r' | '\t' => return (none, r)
  | '\n' => return (none, r.countLine '\n')
  | '"' => do
    let (verdict, r) ← r.quoted
    return (some verdict, r)
  | c => r.ordinary c

/-- Reads on from where the reader stands, and says what that comes to if it
leaves a trace. -/
def scanToken (r : Reader β) : Part (Option Verdict × Reader β) :=
  match r.advance with
  | (none, r) => return (none, r)
  | (some c, r) => r.dispatch c

/-! ### Items -/

/-- The item of a verdict about the present token. -/
def item (r : Reader β) : Verdict → Part Item
  | .ok (kind, literal) => do return .token ⟨kind, ← r.lexeme, literal, r.startLine⟩
  | .error e => return .error e

/-- One round of `next`: begins a token where the reader stands and reads it. -/
def itemRound (r : Reader β) : Part ((Option Item × Reader β) ⊕ Reader β) :=
  if r.isAtEnd then return .inl (none, r)
  else do
    match ← { r with start := r.current, startLine := r.line }.scanToken with
    | (none, r) => return .inr r
    | (some verdict, r) => return .inl (some (← r.item verdict), r)

/-- The next item, if there is one, and the reader after it. -/
def next (r : Reader β) : Part (Option Item × Reader β) := PFun.fix itemRound r

/-- The reader after asking `k` times for the next item. -/
def skip : Nat → Reader β → Part (Reader β)
  | 0, r => return r
  | k + 1, r => do
    let (_, after) ← r.next
    skip k after

/-- One round of `fold`: takes in the next item. -/
def foldRound {α : Type} (f : α → Item → α) :
    α × Reader β → Part ((α × Reader β) ⊕ (α × Reader β))
  | (a, r) => do
    match ← r.next with
    | (none, r) => return .inl (a, r)
    | (some item, r) => return .inr (f a item, r)

/-- Goes through all items that are left, in their order. -/
def fold {α : Type} (f : α → Item → α) (a : α) (r : Reader β) : Part (α × Reader β) :=
  PFun.fix (foldRound f) (a, r)

/-- All items that are left, in their order. -/
def items (r : Reader β) : Part (List Item) := do
  let (reversed, _) ← r.fold (fun acc item => item :: acc) []
  return reversed.reverse

/-- Scans what is left, reporting errors to a sink. -/
def scanInto {σ : Type} (r : Reader β) (sink : Sink σ) (state : σ) : Part (Scan σ) := do
  let (progress, r) ← r.fold (Progress.observe sink) (.start state)
  return progress.finish r.line

end Reader

end LoxLexer
