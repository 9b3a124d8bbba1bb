import Mathlib.Data.List.Basic
import LoxLexer.Text.Utf8

/-!
# What tolerant decoding does

Any bytes can be cut, in one way, into the encodings of characters and ill-formed
pieces.  An ill-formed piece stands where no encoding begins, and there it is the
longest stretch of bytes that an encoding could have begun with, or a single byte
if none can begin so.  Decoding puts one replacement character in the place of each
of these pieces.  No byte of a piece is that of a character of one byte, so that no
quote, hash, slash, star or line end is lost in one.

* `encode_of_lead`, `exists_lead`: the encodings of characters are the leading bytes
  with the bytes that they announce.
* `first_cases`: what is read first is an encoding or an ill-formed piece.
* `exists_decoding`, `Decoding.unique`: bytes can be cut in exactly one way.
* `Decoding.decodeLossy_eq`: the text of the bytes, from the cut.
-/

namespace LoxLexer

namespace Utf8

/-! ### Leading bytes and continuations -/

/-- The bits of continuation bytes behind those of a leading byte. -/
def gather (bits : Nat) (tail : List UInt8) : Nat :=
  tail.foldl (fun bits b => bits * 64 + (b.toNat - 0x80)) bits

/-- A continuation byte adds six bits. -/
theorem gather_cons (bits : Nat) (b : UInt8) (tail : List UInt8) :
    gather bits (b :: tail) = gather (bits * 64 + (b.toNat - 0x80)) tail := by
  rw [gather, List.foldl_cons, gather]

/-- The bytes may follow a leading byte, as some or all of those that it announces. -/
def Continues : Nat → UInt8 → UInt8 → List UInt8 → Prop
  | _, _, _, [] => True
  | 0, _, _, _ :: _ => False
  | n + 1, least, greatest, b :: bs =>
    (least ≤ b ∧ b ≤ greatest) ∧ Continues n 0x80 0xbf bs

section Lead

variable {b : UInt8} {l : Lead}

/-- What a leading byte announces, by its number. -/
theorem lead?_eq (b : UInt8) :
    lead? b =
      if b.toNat < 194 then none
      else if b.toNat < 224 then some ⟨1, 0x80, 0xbf, b.toNat - 192⟩
      else if b.toNat < 240 then
        some ⟨2, if b.toNat = 224 then 0xa0 else 0x80, if b.toNat = 237 then 0x9f else 0xbf,
          b.toNat - 224⟩
      else if b.toNat < 245 then
        some ⟨3, if b.toNat = 240 then 0x90 else 0x80, if b.toNat = 244 then 0x8f else 0xbf,
          b.toNat - 240⟩
      else none := by
  simp only [lead?, UInt8.lt_iff_toNat_lt, ← UInt8.toNat_inj, UInt8.reduceToNat]

/-- A leading byte of the first range announces one more byte. -/
theorem lead?_two (hleast : 194 ≤ b.toNat) (hgreatest : b.toNat < 224) :
    lead? b = some ⟨1, 0x80, 0xbf, b.toNat - 192⟩ := by
  rw [lead?_eq, if_neg (by omega), if_pos hgreatest]

/-- A leading byte of the second range announces two more bytes, the first of which keeps clear
of shorter encodings and of surrogates. -/
theorem lead?_three (hleast : 224 ≤ b.toNat) (hgreatest : b.toNat < 240) :
    lead? b = some ⟨2, if b.toNat = 224 then 0xa0 else 0x80,
      if b.toNat = 237 then 0x9f else 0xbf, b.toNat - 224⟩ := by
  rw [lead?_eq, if_neg (by omega), if_neg (by omega), if_pos hgreatest]

/-- A leading byte of the third range announces three more bytes, the first of which keeps
clear of shorter encodings and of numbers that are too great. -/
theorem lead?_four (hleast : 240 ≤ b.toNat) (hgreatest : b.toNat < 245) :
    lead? b = some ⟨3, if b.toNat = 240 then 0x90 else 0x80,
      if b.toNat = 244 then 0x8f else 0xbf, b.toNat - 240⟩ := by
  rw [lead?_eq, if_neg (by omega), if_neg (by omega), if_neg (by omega), if_pos hgreatest]

/-- A leading byte announces one, two or three bytes. -/
theorem lead_cases (h : lead? b = some l) :
    (194 ≤ b.toNat ∧ b.toNat < 224) ∨ (224 ≤ b.toNat ∧ b.toNat < 240) ∨
      (240 ≤ b.toNat ∧ b.toNat < 245) := by
  rw [lead?_eq] at h
  rcases Nat.lt_or_ge b.toNat 194 with hlow | hlow
  · rw [if_pos hlow] at h
    cases h
  · rcases Nat.lt_or_ge b.toNat 245 with hhigh | hhigh
    · omega
    · rw [if_neg (by omega), if_neg (by omega), if_neg (by omega), if_neg (by omega)] at h
      cases h

end Lead

/-! ### The encodings of characters -/

theorem toNat_charOfNat {n : Nat} (h : n.isValidChar) : (Char.ofNat n).val.toNat = n := by
  rw [Char.ofNat, dif_pos h]
  rfl

/-- A byte is settled by its number. -/
theorem ofNat_eq {n : Nat} {b : UInt8} (h : n = b.toNat) : UInt8.ofNat n = b := by
  rw [h, UInt8.ofNat_toNat]

section Encode

variable {b x y z : UInt8} {n : Nat}

/-- The encoding of a character of one byte is the byte. -/
theorem encode_one (hb : b.toNat < 128) : String.utf8EncodeChar (Char.ofNat b.toNat) = [b] := by
  have hvalid : b.toNat.isValidChar := Or.inl (by omega)
  simp only [String.utf8EncodeChar, toNat_charOfNat hvalid]
  rw [if_pos (by omega), ofNat_eq rfl]

/-- The bits of two bytes make the character with this encoding. -/
theorem encode_two (hb : 194 ≤ b.toNat ∧ b.toNat < 224) (hx : 128 ≤ x.toNat ∧ x.toNat < 192)
    (hn : n = (b.toNat - 192) * 64 + (x.toNat - 128)) :
    String.utf8EncodeChar (Char.ofNat n) = [b, x] := by
  have hvalid : n.isValidChar := Or.inl (by omega)
  simp only [String.utf8EncodeChar, toNat_charOfNat hvalid]
  rw [if_neg (by omega), if_pos (by omega), ofNat_eq (by omega : _ = b.toNat),
    ofNat_eq (by omega : _ = x.toNat)]

/-- The bits of three bytes make the character with this encoding. -/
theorem encode_three (hb : 224 ≤ b.toNat ∧ b.toNat < 240) (hx : 128 ≤ x.toNat ∧ x.toNat < 192)
    (hleast : b.toNat = 224 → 160 ≤ x.toNat) (hgreatest : b.toNat = 237 → x.toNat < 160)
    (hy : 128 ≤ y.toNat ∧ y.toNat < 192)
    (hn : n = ((b.toNat - 224) * 64 + (x.toNat - 128)) * 64 + (y.toNat - 128)) :
    String.utf8EncodeChar (Char.ofNat n) = [b, x, y] := by
  have hvalid : n.isValidChar := by
    rw [Nat.isValidChar]
    omega
  simp only [String.utf8EncodeChar, toNat_charOfNat hvalid]
  rw [if_neg (by omega), if_neg (by omega), if_pos (by omega), ofNat_eq (by omega : _ = b.toNat),
    ofNat_eq (by omega : _ = x.toNat), ofNat_eq (by omega : _ = y.toNat)]

/-- The bits of four bytes make the character with this encoding. -/
theorem encode_four (hb : 240 ≤ b.toNat ∧ b.toNat < 245) (hx : 128 ≤ x.toNat ∧ x.toNat < 192)
    (hleast : b.toNat = 240 → 144 ≤ x.toNat) (hgreatest : b.toNat = 244 → x.toNat < 144)
    (hy : 128 ≤ y.toNat ∧ y.toNat < 192) (hz : 128 ≤ z.toNat ∧ z.toNat < 192)
    (hn : n = (((b.toNat - 240) * 64 + (x.toNat - 128)) * 64 + (y.toNat - 128)) * 64 +
      (z.toNat - 128)) :
    String.utf8EncodeChar (Char.ofNat n) = [b, x, y, z] := by
  have hvalid : n.isValidChar := by
    rw [Nat.isValidChar]
    omega
  simp only [String.utf8EncodeChar, toNat_charOfNat hvalid]
  rw [if_neg (by omega), if_neg (by omega), if_neg (by omega), ofNat_eq (by omega : _ = b.toNat),
    ofNat_eq (by omega : _ = x.toNat), ofNat_eq (by omega : _ = y.toNat),
    ofNat_eq (by omega : _ = z.toNat)]

end Encode

/-- The bounds of a continuation byte, in numbers. -/
theorem between_iff {least greatest x : UInt8} :
    (least ≤ x ∧ x ≤ greatest) ↔ least.toNat ≤ x.toNat ∧ x.toNat ≤ greatest.toNat := by
  rw [UInt8.le_iff_toNat_le, UInt8.le_iff_toNat_le]

/-- A leading byte and all the bytes that it announces are the encoding of the
character whose number they gather. -/
theorem encode_of_lead {b : UInt8} {l : Lead} {tail : List UInt8} (hlead : lead? b = some l)
    (hcontinues : Continues l.following l.least l.greatest tail)
    (hlength : tail.length = l.following) :
    String.utf8EncodeChar (Char.ofNat (gather l.bits tail)) = b :: tail := by
  rcases lead_cases hlead with hb | hb | hb
  · cases (lead?_two hb.1 hb.2).symm.trans hlead
    match tail, hlength with
    | [x], _ =>
      obtain ⟨hx, -⟩ := hcontinues
      simp only [between_iff, UInt8.reduceToNat] at hx
      exact encode_two hb (by omega) rfl
  · cases (lead?_three hb.1 hb.2).symm.trans hlead
    match tail, hlength with
    | [x, y], _ =>
      obtain ⟨hx, hy, -⟩ := hcontinues
      simp only [between_iff, apply_ite UInt8.toNat, UInt8.reduceToNat] at hx hy
      have hrange : 128 ≤ x.toNat ∧ x.toNat < 192 := by split_ifs at hx <;> omega
      refine encode_three hb hrange (fun heq => ?_) (fun heq => ?_) (by omega) rfl
      · rw [if_pos heq] at hx
        exact hx.1
      · rw [if_pos heq] at hx
        exact Nat.lt_succ_of_le hx.2
  · cases (lead?_four hb.1 hb.2).symm.trans hlead
    match tail, hlength with
    | [x, y, z], _ =>
      obtain ⟨hx, hy, hz, -⟩ := hcontinues
      simp only [between_iff, apply_ite UInt8.toNat, UInt8.reduceToNat] at hx hy hz
      have hrange : 128 ≤ x.toNat ∧ x.toNat < 192 := by split_ifs at hx <;> omega
      refine encode_four hb hrange (fun heq => ?_) (fun heq => ?_) (by omega) (by omega) rfl
      · rw [if_pos heq] at hx
        exact hx.1
      · rw [if_pos heq] at hx
        exact Nat.lt_succ_of_le hx.2

theorem toNat_byte {n : Nat} (h : n < 256) : (UInt8.ofNat n).toNat = n :=
  UInt8.toNat_ofNat_of_lt' h

/-- The last six bits of a number make a continuation byte. -/
theorem toNat_sixBits (v : Nat) : (UInt8.ofNat (v % 64 + 128)).toNat = v % 64 + 128 :=
  toNat_byte (by omega)

/-- Six bits make a continuation byte. -/
theorem between_sixBits (v : Nat) :
    0x80 ≤ UInt8.ofNat (v % 64 + 128) ∧ UInt8.ofNat (v % 64 + 128) ≤ 0xbf := by
  simp only [between_iff, toNat_sixBits, UInt8.reduceToNat]
  omega

/-- The encoding of a character is one byte or begins with a leading byte, behind
which are all the bytes that it announces. -/
theorem exists_lead (c : Char) (hc : 128 ≤ c.val.toNat) :
    ∃ b l tail, String.utf8EncodeChar c = b :: tail ∧ lead? b = some l ∧
      Continues l.following l.least l.greatest tail ∧ tail.length = l.following ∧
      gather l.bits tail = c.val.toNat := by
  have hvalid : c.val.toNat < 55296 ∨ 57343 < c.val.toNat ∧ c.val.toNat < 1114112 := c.valid
  simp only [String.utf8EncodeChar]
  generalize c.val.toNat = v at hc hvalid
  have hx := toNat_sixBits (v / 4096)
  have hy := toNat_sixBits (v / 64)
  have hz := toNat_sixBits v
  rw [if_neg (by omega)]
  split
  · have hb : (UInt8.ofNat (v / 64 % 32 + 192)).toNat = v / 64 + 192 := by
      rw [toNat_byte (by omega)]
      omega
    refine ⟨_, _, _, rfl, lead?_two (by omega) (by omega), ⟨between_sixBits v, trivial⟩, rfl, ?_⟩
    simp only [gather, List.foldl_cons, List.foldl_nil]
    omega
  split
  · have hb : (UInt8.ofNat (v / 4096 % 16 + 224)).toNat = v / 4096 + 224 := by
      rw [toNat_byte (by omega)]
      omega
    refine ⟨_, _, _, rfl, lead?_three (by omega) (by omega),
      ⟨?_, between_sixBits v, trivial⟩, rfl, ?_⟩
    · simp only [between_iff, apply_ite UInt8.toNat, UInt8.reduceToNat]
      split_ifs <;> omega
    · simp only [gather, List.foldl_cons, List.foldl_nil]
      omega
  · have hb : (UInt8.ofNat (v / 262144 % 8 + 240)).toNat = v / 262144 + 240 := by
      rw [toNat_byte (by omega)]
      omega
    refine ⟨_, _, _, rfl, lead?_four (by omega) (by omega),
      ⟨?_, between_sixBits (v / 64), between_sixBits v, trivial⟩, rfl, ?_⟩
    · simp only [between_iff, apply_ite UInt8.toNat, UInt8.reduceToNat]
      split_ifs <;> omega
    · simp only [gather, List.foldl_cons, List.foldl_nil]
      omega

/-- A leading byte leaves room for the first continuation byte, and that is no
byte of a character of one byte. -/
theorem lead_bounds {b : UInt8} {l : Lead} (h : lead? b = some l) :
    0x80 ≤ l.least ∧ l.least ≤ l.greatest := by
  rcases lead_cases h with hb | hb | hb
  · cases (lead?_two hb.1 hb.2).symm.trans h
    exact ⟨UInt8.le_refl 0x80, (by decide : (0x80 : UInt8) ≤ 0xbf)⟩
  · cases (lead?_three hb.1 hb.2).symm.trans h
    by_cases heq : b.toNat = 224
    · simp [heq]
    · simp only [if_neg heq]
      split <;> decide
  · cases (lead?_four hb.1 hb.2).symm.trans h
    by_cases heq : b.toNat = 240
    · simp [heq]
    · simp only [if_neg heq]
      split <;> decide

/-! ### Reading continuation bytes -/

section Continuation

variable {n : Nat} {least greatest : UInt8} {front rest tail : List UInt8}

theorem continues_nil : Continues n least greatest [] := by
  cases n <;> trivial

/-- If some bytes may follow, so may the first ones of them. -/
theorem Continues.of_append (h : Continues n least greatest (front ++ rest)) :
    Continues n least greatest front := by
  induction front generalizing n least greatest with
  | nil => exact continues_nil
  | cons b front ih =>
      cases n with
      | zero => exact h
      | succ n => exact ⟨h.1, ih h.2⟩

/-- What continues can be continued to the end. -/
theorem Continues.exists_full (h : Continues n least greatest tail) (hbounds : least ≤ greatest) :
    ∃ more, Continues n least greatest (tail ++ more) ∧ (tail ++ more).length = n := by
  induction n generalizing least greatest tail with
  | zero =>
      cases tail with
      | nil => exact ⟨[], continues_nil, rfl⟩
      | cons => exact h.elim
  | succ n ih =>
      cases tail with
      | nil =>
          have hnothing : Continues n 0x80 0xbf [] := continues_nil
          obtain ⟨more, hmore, hlength⟩ := ih hnothing (by decide)
          exact ⟨least :: more, ⟨⟨UInt8.le_refl least, hbounds⟩, hmore⟩, congrArg Nat.succ hlength⟩
      | cons b tail =>
          obtain ⟨more, hmore, hlength⟩ := ih h.2 (by decide)
          exact ⟨more, ⟨h.1, hmore⟩, congrArg Nat.succ hlength⟩

/-- Whatever follows a leading byte has the top bit set. -/
theorem Continues.le (h : Continues n least greatest tail) (hleast : 0x80 ≤ least) :
    ∀ b ∈ tail, 0x80 ≤ b := by
  induction tail generalizing n least greatest with
  | nil => exact fun b hb => absurd hb List.not_mem_nil
  | cons x tail ih =>
      cases n with
      | zero => exact h.elim
      | succ n =>
          intro b hb
          rcases List.mem_cons.mp hb with rfl | hb
          · exact UInt8.le_trans hleast h.1.1
          · exact ih h.2 (UInt8.le_refl _) b hb

/-- All bytes that are announced are read. -/
theorem continuation_append (bits : Nat) (h : Continues n least greatest tail)
    (hlength : tail.length = n) (rest : List UInt8) :
    continuation n least greatest bits (tail ++ rest) = (some (gather bits tail), rest) := by
  induction n generalizing least greatest bits tail with
  | zero =>
      obtain rfl := List.length_eq_zero_iff.mp hlength
      rfl
  | succ n ih =>
      match tail, h, hlength with
      | b :: tail, h, hlength =>
        rw [List.cons_append, continuation, if_pos h.1, ih _ h.2 (Nat.succ.inj hlength),
          gather_cons]

/-- Reading takes bytes as long as they continue. -/
theorem continuation_cases (n : Nat) (least greatest : UInt8) (bits : Nat) (bytes : List UInt8) :
    ∃ tail rest, bytes = tail ++ rest ∧ Continues n least greatest tail ∧
      ((tail.length = n ∧
          continuation n least greatest bits bytes = (some (gather bits tail), rest)) ∨
        (continuation n least greatest bits bytes = (none, rest) ∧
          ∀ x more, rest = x :: more → ¬ Continues n least greatest (tail ++ [x]))) := by
  fun_induction continuation n least greatest bits bytes with
  | case1 least greatest bits bytes =>
      exact ⟨[], bytes, rfl, continues_nil, Or.inl ⟨rfl, rfl⟩⟩
  | case2 n least greatest bits =>
      exact ⟨[], [], rfl, continues_nil, Or.inr ⟨rfl, fun _ _ heq => by cases heq⟩⟩
  | case3 n least greatest bits b bs hb ih =>
      obtain ⟨tail, rest, hbytes, hcontinues, hend⟩ := ih
      refine ⟨b :: tail, rest, congrArg (b :: ·) hbytes, ⟨hb, hcontinues⟩, ?_⟩
      rcases hend with ⟨hlength, hread⟩ | ⟨hread, hstop⟩
      · rw [← gather_cons] at hread
        exact Or.inl ⟨congrArg Nat.succ hlength, hread⟩
      · exact Or.inr ⟨hread, fun x more hrest hlonger => hstop x more hrest hlonger.2⟩
  | case4 n least greatest bits b bs hb =>
      refine ⟨[], b :: bs, rfl, continues_nil, Or.inr ⟨rfl, fun x more heq hlonger => ?_⟩⟩
      obtain ⟨rfl, -⟩ := List.cons.inj heq
      exact hb hlonger.1

end Continuation

/-! ### Ill-formed pieces -/

/-- A stretch of bytes that an encoding could begin with, or a single byte. -/
def IsSubpart (part : List UInt8) : Prop :=
  part.length = 1 ∨ part ≠ [] ∧ ∃ c, part <+: String.utf8EncodeChar c

/-- The bytes begin with an ill-formed piece: with the encoding of no character,
and with no longer stretch that an encoding could begin with. -/
structure MaximalSubpart (part bytes : List UInt8) : Prop where
  unconvertible : ∀ c, ¬ String.utf8EncodeChar c <+: bytes
  front : part <+: bytes
  isSubpart : IsSubpart part
  longest : ∀ longer, longer <+: bytes → IsSubpart longer → longer.length ≤ part.length

/-- The bytes cut into the encodings of characters and ill-formed pieces. -/
inductive Decoding : List UInt8 → List (List UInt8 × Option Char) → Prop
  | nil : Decoding [] []
  | char {rest : List UInt8} {segments : List (List UInt8 × Option Char)} (c : Char)
      (hrest : Decoding rest segments) :
      Decoding (String.utf8EncodeChar c ++ rest) ((String.utf8EncodeChar c, some c) :: segments)
  | illFormed {part rest : List UInt8} {segments : List (List UInt8 × Option Char)}
      (hpart : MaximalSubpart part (part ++ rest)) (hrest : Decoding rest segments) :
      Decoding (part ++ rest) ((part, none) :: segments)

/-- The encoding of a character below 128 is one byte. -/
theorem encode_of_lt {c : Char} (hc : c.val.toNat < 128) :
    ∃ b, b.toNat < 128 ∧ String.utf8EncodeChar c = [b] ∧ Char.ofNat b.toNat = c := by
  have hb : (UInt8.ofNat c.val.toNat).toNat = c.val.toNat := toNat_byte (by omega)
  refine ⟨UInt8.ofNat c.val.toNat, by omega, ?_, ?_⟩
  · simp only [String.utf8EncodeChar]
    rw [if_pos (by omega)]
  · rw [hb]
    exact Char.ofNat_toNat c

/-- **Characters are found.** Where the encoding of a character stands, it is read. -/
theorem first_encode {c : Char} {b : UInt8} {tail : List UInt8}
    (hencode : String.utf8EncodeChar c = b :: tail) (rest : List UInt8) :
    first b (tail ++ rest) = (some c, rest) := by
  rcases Nat.lt_or_ge c.val.toNat 128 with hc | hc
  · obtain ⟨b', hb, hone, hchar⟩ := encode_of_lt hc
    cases hone.symm.trans hencode
    rw [first, if_pos (UInt8.lt_iff_toNat_lt.mpr hb), hchar]
    rfl
  · obtain ⟨b', l, tail', hlong, hlead, hcontinues, hlength, hgather⟩ := exists_lead c hc
    cases hlong.symm.trans hencode
    have hb : ¬ b < 0x80 := fun hlt => by
      have hsmall : b.toNat < 128 := UInt8.lt_iff_toNat_lt.mp hlt
      rcases lead_cases hlead with hb | hb | hb <;> omega
    rw [first, if_neg hb, hlead]
    simp only [continuation_append l.bits hcontinues hlength rest, hgather, Option.map_some]
    exact congrArg (fun d => (some d, rest)) (Char.ofNat_toNat c)

theorem exists_encode (c : Char) : ∃ b tail, String.utf8EncodeChar c = b :: tail :=
  List.exists_cons_of_ne_nil String.utf8EncodeChar_ne_nil

/-- No encoding begins where none is read. -/
theorem unconvertible_of_first {b : UInt8} {bs rest : List UInt8} (h : first b bs = (none, rest))
    (c : Char) : ¬ String.utf8EncodeChar c <+: b :: bs := by
  rintro ⟨more, hmore⟩
  obtain ⟨b', tail, hencode⟩ := exists_encode c
  rw [hencode] at hmore
  obtain ⟨rfl, rfl⟩ := List.cons.inj hmore
  cases h.symm.trans (first_encode hencode more)

/-- A subpart of more than one byte is a leading byte and some of the bytes that it
announces. -/
theorem IsSubpart.continues {b : UInt8} {tail : List UInt8} (h : IsSubpart (b :: tail))
    (htail : tail ≠ []) :
    ∃ l, lead? b = some l ∧ Continues l.following l.least l.greatest tail := by
  rcases h with hone | ⟨-, c, more, hmore⟩
  · exact absurd (List.length_eq_zero_iff.mp (Nat.succ.inj hone)) htail
  rcases Nat.lt_or_ge c.val.toNat 128 with hc | hc
  · obtain ⟨b', -, hencode, -⟩ := encode_of_lt hc
    rw [hencode] at hmore
    exact absurd (List.append_eq_nil_iff.mp (List.cons.inj hmore).2).1 htail
  · obtain ⟨b', l, tail', hencode, hlead, hcontinues, -⟩ := exists_lead c hc
    rw [hencode] at hmore
    obtain ⟨rfl, rfl⟩ := List.cons.inj hmore
    exact ⟨l, hlead, hcontinues.of_append⟩

/-- A byte that begins no encoding is a piece by itself. -/
theorem maximalSubpart_single {b : UInt8} {bs : List UInt8} (hlead : lead? b = none)
    (hfirst : first b bs = (none, bs)) : MaximalSubpart [b] (b :: bs) where
  unconvertible := unconvertible_of_first hfirst
  front := ⟨bs, rfl⟩
  isSubpart := Or.inl rfl
  longest := by
    rintro longer ⟨more, hmore⟩ hsubpart
    match longer, hmore, hsubpart with
    | [], _, _ => exact Nat.zero_le _
    | [_], _, _ => exact Nat.le_refl _
    | x :: y :: longer, hmore, hsubpart =>
      obtain ⟨l, hl, -⟩ := hsubpart.continues (List.cons_ne_nil _ _)
      rw [(List.cons.inj hmore).1, hlead] at hl
      cases hl

/-- A leading byte is a piece together with the bytes that continue it. -/
theorem maximalSubpart_lead {b : UInt8} {l : Lead} {tail rest : List UInt8}
    (hlead : lead? b = some l) (hfirst : first b (tail ++ rest) = (none, rest))
    (hcontinues : Continues l.following l.least l.greatest tail)
    (hstop : ∀ x more, rest = x :: more →
      ¬ Continues l.following l.least l.greatest (tail ++ [x])) :
    MaximalSubpart (b :: tail) (b :: (tail ++ rest)) where
  unconvertible := unconvertible_of_first hfirst
  front := ⟨rest, rfl⟩
  isSubpart := by
    obtain ⟨more, hfull, hlength⟩ := hcontinues.exists_full (lead_bounds hlead).2
    exact Or.inr ⟨List.cons_ne_nil _ _, _, more, (encode_of_lead hlead hfull hlength).symm⟩
  longest := by
    rintro longer ⟨beyond, hbeyond⟩ hsubpart
    by_contra hgt
    obtain ⟨v, rfl⟩ : b :: tail <+: longer :=
      List.prefix_of_prefix_length_le ⟨rest, rfl⟩ ⟨beyond, hbeyond⟩ (Nat.le_of_not_le hgt)
    cases v with
    | nil => exact hgt (Nat.le_of_eq (by rw [List.append_nil]))
    | cons x v =>
        -- The byte behind the piece would be one that continues it.
        obtain ⟨l', hl', hlonger⟩ := hsubpart.continues
          (List.append_ne_nil_of_right_ne_nil _ (List.cons_ne_nil x v))
        cases hlead.symm.trans hl'
        have hrest : x :: (v ++ beyond) = rest := by simpa using hbeyond
        have hnext : Continues l.following l.least l.greatest (tail ++ [x] ++ v) := by
          rw [List.append_assoc]
          exact hlonger
        exact hstop x (v ++ beyond) hrest.symm hnext.of_append

/-- **What is read first.**  It is the encoding of a character or an ill-formed piece,
and there is no byte of a character of one byte in an ill-formed piece. -/
theorem first_cases (b : UInt8) (bs : List UInt8) :
    (∃ c rest, first b bs = (some c, rest) ∧ b :: bs = String.utf8EncodeChar c ++ rest) ∨
      ∃ part rest, first b bs = (none, rest) ∧ b :: bs = part ++ rest ∧
        MaximalSubpart part (b :: bs) ∧ ∀ x ∈ part, 0x80 ≤ x := by
  by_cases hb : b < 0x80
  · refine Or.inl ⟨Char.ofNat b.toNat, bs, by rw [first, if_pos hb], ?_⟩
    rw [encode_one (UInt8.lt_iff_toNat_lt.mp hb)]
    rfl
  have hhigh : 0x80 ≤ b := UInt8.not_lt.mp hb
  cases hlead : lead? b with
  | none =>
      have hfirst : first b bs = (none, bs) := by rw [first, if_neg hb, hlead]
      exact Or.inr ⟨[b], bs, hfirst, rfl, maximalSubpart_single hlead hfirst, by simpa using hhigh⟩
  | some l =>
      obtain ⟨tail, rest, rfl, hcontinues, ⟨hlength, hread⟩ | ⟨hread, hstop⟩⟩ :=
        continuation_cases l.following l.least l.greatest l.bits bs
      · refine Or.inl ⟨Char.ofNat (gather l.bits tail), rest, ?_, ?_⟩
        · rw [first, if_neg hb, hlead]
          simp only [hread, Option.map_some]
        · rw [encode_of_lead hlead hcontinues hlength]
          rfl
      · have hfirst : first b (tail ++ rest) = (none, rest) := by
          rw [first, if_neg hb, hlead]
          simp only [hread, Option.map_none]
        have htail := hcontinues.le (lead_bounds hlead).1
        exact Or.inr ⟨b :: tail, rest, hfirst, rfl,
          maximalSubpart_lead hlead hfirst hcontinues hstop,
          List.forall_mem_cons.mpr ⟨hhigh, htail⟩⟩

/-! ### All the pieces -/

/-- The pieces so far stand before those that are still to be found. -/
theorem pieces_go (acc : List (Option Char)) (bytes : List UInt8) :
    pieces.go acc bytes = acc.reverse ++ pieces bytes := by
  match bytes with
  | [] => simp [pieces, pieces.go]
  | b :: bs =>
    rw [pieces, pieces.go, pieces.go, pieces_go _ (first b bs).2, pieces_go _ (first b bs).2]
    simp
termination_by bytes.length
decreasing_by all_goals exact length_first_lt b bs

theorem pieces_nil : pieces [] = [] := by
  rw [pieces, pieces.go]
  rfl

theorem pieces_cons (b : UInt8) (bs : List UInt8) :
    pieces (b :: bs) = (first b bs).1 :: pieces (first b bs).2 := by
  rw [pieces, pieces.go, pieces_go]
  rfl

/-- An ill-formed piece is passed over as a whole, and no byte in it is that of a
character of one byte. -/
theorem MaximalSubpart.read {b : UInt8} {bs part rest : List UInt8}
    (h : MaximalSubpart part (b :: bs)) (hsplit : b :: bs = part ++ rest) :
    first b bs = (none, rest) ∧ ∀ x ∈ part, 0x80 ≤ x := by
  rcases first_cases b bs with
    ⟨c, rest', -, hencode⟩ | ⟨part', rest', hfirst, hsplit', hpart, hhigh⟩
  · exact absurd ⟨rest', hencode.symm⟩ (h.unconvertible c)
  · have hle := h.longest part' ⟨rest', hsplit'.symm⟩ hpart.isSubpart
    have hge := hpart.longest part ⟨rest, hsplit.symm⟩ h.isSubpart
    obtain ⟨rfl, rfl⟩ := List.append_inj (hsplit'.symm.trans hsplit) (Nat.le_antisymm hle hge)
    exact ⟨hfirst, hhigh⟩

theorem IsSubpart.ne_nil {part : List UInt8} (h : IsSubpart part) : part ≠ [] := by
  rcases h with hone | ⟨hne, -⟩
  · exact List.ne_nil_of_length_eq_add_one hone
  · exact hne

namespace Decoding

variable {bytes : List UInt8} {segments : List (List UInt8 × Option Char)}

/-- The pieces that are read are those of the cut. -/
theorem pieces_eq (h : Decoding bytes segments) : pieces bytes = segments.map Prod.snd := by
  induction h with
  | nil => exact pieces_nil
  | @char rest segments c _ ih =>
      obtain ⟨b, tail, hencode⟩ := exists_encode c
      rw [hencode, List.cons_append, pieces_cons, first_encode hencode, ih]
      rfl
  | @illFormed part rest segments hpart _ ih =>
      obtain ⟨b, tail, rfl⟩ := List.exists_cons_of_ne_nil hpart.isSubpart.ne_nil
      rw [List.cons_append] at hpart ⊢
      rw [pieces_cons, (hpart.read rfl).1, ih]
      rfl

/-- The text of the bytes has one character for each segment. -/
theorem decodeLossy_eq (h : Decoding bytes segments) :
    decodeLossy bytes = segments.map (fun segment => segment.2.getD replacement) := by
  rw [decodeLossy, h.pieces_eq, List.map_map]
  rfl

/-- All bytes of an ill-formed piece have the top bit set. -/
theorem le_of_mem (h : Decoding bytes segments) {part : List UInt8}
    (hmem : (part, none) ∈ segments) : ∀ x ∈ part, 0x80 ≤ x := by
  induction h with
  | nil => exact absurd hmem List.not_mem_nil
  | char c _ ih =>
      rcases List.mem_cons.mp hmem with heq | hlater
      · cases heq
      · exact ih hlater
  | @illFormed part' rest segments hpart _ ih =>
      rcases List.mem_cons.mp hmem with heq | hlater
      · cases heq
        obtain ⟨b, tail, rfl⟩ := List.exists_cons_of_ne_nil hpart.isSubpart.ne_nil
        exact (hpart.read rfl).2
      · exact ih hlater

/-- A cut begins with what is read first. -/
theorem first_segment (h : Decoding bytes segments) :
    (bytes = [] ∧ segments = []) ∨
      ∃ b bs part later, bytes = b :: bs ∧ segments = (part, (first b bs).1) :: later ∧
        part ++ (first b bs).2 = b :: bs ∧ Decoding (first b bs).2 later := by
  cases h with
  | nil => exact Or.inl ⟨rfl, rfl⟩
  | @char rest later c hrest =>
      obtain ⟨b, tail, hencode⟩ := exists_encode c
      refine Or.inr ⟨b, tail ++ rest, String.utf8EncodeChar c, later, ?_, ?_, ?_, ?_⟩
      · rw [hencode]
        rfl
      · rw [first_encode hencode]
      · rw [first_encode hencode, hencode]
        rfl
      · rw [first_encode hencode]
        exact hrest
  | @illFormed part rest later hpart hrest =>
      obtain ⟨b, tail, rfl⟩ := List.exists_cons_of_ne_nil hpart.isSubpart.ne_nil
      have hfirst : first b (tail ++ rest) = (none, rest) := (hpart.read rfl).1
      refine Or.inr ⟨b, tail ++ rest, b :: tail, later, rfl, ?_, ?_, ?_⟩
      · rw [hfirst]
      · rw [hfirst]
        rfl
      · rw [hfirst]
        exact hrest

/-- There is only one way to cut bytes. -/
theorem unique {bytes : List UInt8} {segments other : List (List UInt8 × Option Char)}
    (h : Decoding bytes segments) (h' : Decoding bytes other) : other = segments := by
  rcases h.first_segment with ⟨rfl, rfl⟩ | ⟨b, bs, part, later, rfl, rfl, hpart, hlater⟩
  · rcases h'.first_segment with ⟨-, rfl⟩ | ⟨b, bs, part, later, heq, -⟩
    · rfl
    · cases heq
  · rcases h'.first_segment with ⟨heq, -⟩ | ⟨b', bs', part', later', heq, rfl, hpart', hlater'⟩
    · cases heq
    · obtain ⟨rfl, rfl⟩ := List.cons.inj heq
      obtain rfl := List.append_cancel_right (hpart'.trans hpart.symm)
      rw [hlater.unique hlater']
termination_by bytes.length
decreasing_by subst_vars; exact length_first_lt _ _

end Decoding

/-- Any bytes can be cut. -/
theorem exists_decoding (bytes : List UInt8) : ∃ segments, Decoding bytes segments := by
  match bytes with
  | [] => exact ⟨[], .nil⟩
  | b :: bs =>
    obtain ⟨later, hlater⟩ := exists_decoding (first b bs).2
    rcases first_cases b bs with ⟨c, rest, hfirst, hsplit⟩ | ⟨part, rest, hfirst, hsplit, hpart, -⟩
    · rw [hfirst] at hlater
      rw [hsplit]
      exact ⟨_, .char c hlater⟩
    · rw [hfirst] at hlater
      rw [hsplit] at hpart ⊢
      exact ⟨_, .illFormed hpart hlater⟩
termination_by bytes.length
decreasing_by exact length_first_lt b bs

end Utf8

end LoxLexer
