/-!
# UTF-8

Reading bytes as characters, with or without tolerance for what is ill formed.

A character of more than one byte begins with a byte that says how many
continuation bytes follow, and for some of these leading bytes the first
continuation byte is confined to a narrower range, which keeps out overlong
forms, surrogates and numbers that are too large.  Where the bytes stop short
of a character, those that could still have begun one form one ill-formed
piece, and the byte that breaks it off is looked at anew.  A byte that can
begin nothing is an ill-formed piece by itself.

`decodeLossy` puts the replacement character in the place of each ill-formed
piece, `decode?` refuses them.
-/

namespace LoxLexer

namespace Utf8

/-- The bytes of a text. -/
def encode (text : List Char) : List UInt8 := text.flatMap String.utf8EncodeChar

/-- The number of bytes of a text. -/
def size (text : List Char) : Nat := text.foldl (fun n c => n + c.utf8Size) 0

/-- Cuts a text behind its first `n` bytes, if no character lies across the cut. -/
def cut? : Nat → List Char → Option (List Char × List Char)
  | 0, text => some ([], text)
  | _ + 1, [] => none
  | n + 1, c :: cs =>
    if c.utf8Size ≤ n + 1 then
      (cut? (n + 1 - c.utf8Size) cs).map (fun (front, rest) => (c :: front, rest))
    else none

/-- What the leading byte of a longer character says: the number of bytes that
follow, the range of the first of them, and its own share of the bits. -/
structure Lead where
  following : Nat
  least : UInt8
  greatest : UInt8
  bits : Nat
deriving DecidableEq, Repr

/-- The meaning of a leading byte, if it is one. -/
def lead? (b : UInt8) : Option Lead :=
  if b < 0xc2 then none
  else if b < 0xe0 then some ⟨1, 0x80, 0xbf, b.toNat - 0xc0⟩
  else if b < 0xf0 then
    some ⟨2, if b = 0xe0 then 0xa0 else 0x80, if b = 0xed then 0x9f else 0xbf, b.toNat - 0xe0⟩
  else if b < 0xf5 then
    some ⟨3, if b = 0xf0 then 0x90 else 0x80, if b = 0xf4 then 0x8f else 0xbf, b.toNat - 0xf0⟩
  else none

/-- Reads `following` continuation bytes, the first of them within the given
range, and gathers their bits behind those in `bits`. Returns the number of
the character, or `none` if a byte is missing or out of range, and the bytes
that were not used. -/
def continuation (following : Nat) (least greatest : UInt8) (bits : Nat)
    (bytes : List UInt8) : Option Nat × List UInt8 :=
  match following, bytes with
  | 0, bytes => (some bits, bytes)
  | _ + 1, [] => (none, [])
  | n + 1, b :: bs =>
    if least ≤ b ∧ b ≤ greatest then
      continuation n 0x80 0xbf (bits * 64 + (b.toNat - 0x80)) bs
    else (none, b :: bs)

/-- The first piece of the bytes `b :: bs`: a character, or `none` for an
ill-formed piece, and the bytes after it. -/
def first (b : UInt8) (bs : List UInt8) : Option Char × List UInt8 :=
  if b < 0x80 then (some (Char.ofNat b.toNat), bs)
  else
    match lead? b with
    | none => (none, bs)
    | some l =>
      let (number, rest) := continuation l.following l.least l.greatest l.bits bs
      (number.map Char.ofNat, rest)

/-- What is left behind the bytes of a character is no longer than all of them. -/
theorem length_continuation_le (following : Nat) (least greatest : UInt8) (bits : Nat)
    (bytes : List UInt8) :
    (continuation following least greatest bits bytes).2.length ≤ bytes.length := by
  fun_induction continuation following least greatest bits bytes with
  | case1 => exact Nat.le_refl _
  | case2 => exact Nat.le_refl _
  | case3 _ _ _ n b bs _ ih => exact Nat.le_succ_of_le ih
  | case4 => exact Nat.le_refl _

/-- A piece takes at least one byte. -/
theorem length_first_lt (b : UInt8) (bs : List UInt8) :
    (first b bs).2.length < (b :: bs).length := by
  unfold first
  split
  · exact Nat.lt_succ_self _
  split
  · exact Nat.lt_succ_self _
  · next l _ => exact Nat.lt_succ_of_le (length_continuation_le ..)

/-- The pieces that the bytes consist of, with `none` for each ill-formed one. -/
def pieces (bytes : List UInt8) : List (Option Char) :=
  go [] bytes
where
  /-- Puts the pieces of `bytes` behind those in `acc`, which are in reverse order. -/
  go (acc : List (Option Char)) (bytes : List UInt8) : List (Option Char) :=
    match bytes with
    | [] => acc.reverse
    | b :: bs => go ((first b bs).1 :: acc) (first b bs).2
  termination_by bytes.length
  decreasing_by exact length_first_lt b bs

/-- The character that stands for an ill-formed piece. -/
def replacement : Char := '\ufffd'

/-- The text of the bytes, with the replacement character for each ill-formed piece. -/
def decodeLossy (bytes : List UInt8) : List Char :=
  (pieces bytes).map (fun piece => piece.getD replacement)

/-- The text of the bytes, if no piece is ill formed. -/
def decode? (bytes : List UInt8) : Option (List Char) :=
  (pieces bytes).mapM id

end Utf8

end LoxLexer
