import Mathlib.Data.List.Forall2
import LoxLexer.Proofs.RoundTrip
import LoxLexer.Session.Run
import LoxLexer.Sink.Reporter

/-!
# Listings can be read back

A listing has no quotes around what it lists.  A string may hold spaces, line
ends and what looks like another line of the listing, and all that is listed
twice, once in the lexeme and once as the value.  Yet nothing is lost: a reader
who goes through a listing from its front always knows where he is.  The name
of a kind ends at the first space.  Then the kind tells where the lexeme ends,
which for a string is behind its second quote and else before the next space.
And the lexeme settles the value, so that there is nothing left to be found out
about the rest of the line.

* `Readable`: texts that can be read off the front of any text, with
  `Readable.map_eq` for rows of them.
* `readable_line`, `readable_error`, `readable_tokens`: the lines for tokens,
  the lines for errors, and the tokens of one scan among those of many.
* `listing_injective`: the statement for scans.
-/

namespace LoxLexer

/-- What a listing says of a token, which is everything but its line. -/
def Token.content (t : Token) : Kind × List Char × Option Literal :=
  (t.kind, t.lexeme, t.literal)

/-! ### Reading off the front -/

section Readable

variable {α β γ : Type}

/-- What `f` writes for the things in `P` can be read off the front of any text:
it says what `g` is for the thing, and where it ends. -/
structure Readable (P : α → Prop) (f : α → List γ) (g : α → β) : Prop where
  ne_nil : ∀ a, f a ≠ []
  read : ∀ {a b : α} {rest rest' : List γ}, P a → P b → f a ++ rest = f b ++ rest' →
    g a = g b ∧ rest = rest'

/-- A row of such texts is read one after the other. -/
theorem Readable.map_eq {P : α → Prop} {f : α → List γ} {g : α → β} (h : Readable P f g)
    {as bs : List α} (has : ∀ a ∈ as, P a) (hbs : ∀ b ∈ bs, P b)
    (heq : as.flatMap f = bs.flatMap f) : as.map g = bs.map g := by
  induction as generalizing bs with
  | nil =>
      cases bs with
      | nil => rfl
      | cons b bs => exact absurd (List.append_eq_nil_iff.mp heq.symm).1 (h.ne_nil b)
  | cons a as ih =>
      cases bs with
      | nil => exact absurd (List.append_eq_nil_iff.mp heq).1 (h.ne_nil a)
      | cons b bs =>
          rw [List.flatMap_cons, List.flatMap_cons] at heq
          obtain ⟨ha, has⟩ := List.forall_mem_cons.mp has
          obtain ⟨hb, hbs⟩ := List.forall_mem_cons.mp hbs
          obtain ⟨hhere, hrest⟩ := h.read ha hb heq
          rw [List.map_cons, List.map_cons, hhere, ih has hbs hrest]

/-- The first of a mark ends what has none of them. -/
theorem append_mark_inj {mark : γ} {s t rest rest' : List γ} (hs : mark ∉ s) (ht : mark ∉ t)
    (h : s ++ mark :: rest = t ++ mark :: rest') : s = t ∧ rest = rest' := by
  induction s generalizing t with
  | nil =>
      cases t with
      | nil => exact ⟨rfl, (List.cons.inj h).2⟩
      | cons d ds =>
          rw [(List.cons.inj h).1] at ht
          exact absurd List.mem_cons_self ht
  | cons c cs ih =>
      cases t with
      | nil =>
          rw [← (List.cons.inj h).1] at hs
          exact absurd List.mem_cons_self hs
      | cons d ds =>
          obtain ⟨rfl, htail⟩ := List.cons.inj h
          obtain ⟨rfl, hrest⟩ := ih (fun hmem => hs (List.mem_cons_of_mem c hmem))
            (fun hmem => ht (List.mem_cons_of_mem c hmem)) htail
          exact ⟨rfl, hrest⟩

end Readable

/-! ### Tokens -/

theorem Kind.space_not_mem_name (k : Kind) : ' ' ∉ k.name.toList := by
  have hall : ∀ k ∈ all, ' ' ∉ k.name.toList := by decide +kernel
  exact hall k (mem_all k)

/-- A token that a scan may return. -/
def Token.IsListed (t : Token) : Prop :=
  Lexeme t.lexeme t.kind t.literal ∨ t.content = (.endOfFile, [], none)

/-- Whatever a scan returns is a lexeme with its value, or the token at the end. -/
theorem isListed_of_mem_scan {source : List Char} {t : Token} (h : t ∈ (scan source).tokens) :
    t.IsListed := by
  rcases mem_tokens_scan.mp h with hitem | rfl
  · exact Or.inl (lexeme_of_mem_itemsOf hitem)
  · exact Or.inr rfl

/-- A lexeme with a space behind it ends where its kind says. -/
theorem Lexeme.append_space_inj {text text' rest rest' : List Char} {kind : Kind}
    {literal literal' : Option Literal} (h : Lexeme text kind literal)
    (h' : Lexeme text' kind literal') (heq : text ++ ' ' :: rest = text' ++ ' ' :: rest') :
    text = text' ∧ rest = rest' := by
  by_cases hkind : kind = .string
  · subst hkind
    obtain ⟨contents, rfl, -, hcontents⟩ := h.exists_contents
    obtain ⟨contents', rfl, -, hcontents'⟩ := h'.exists_contents
    have hinner : contents ++ '"' :: ' ' :: rest = contents' ++ '"' :: ' ' :: rest' := by
      simpa using heq
    obtain ⟨rfl, hrest⟩ := append_mark_inj hcontents hcontents' hinner
    exact ⟨rfl, (List.cons.inj hrest).2⟩
  · have hspace : ' ' ∉ text := fun hmem => by cases h.isSpace_eq_false hkind _ hmem
    have hspace' : ' ' ∉ text' := fun hmem => by cases h'.isSpace_eq_false hkind _ hmem
    exact append_mark_inj hspace hspace' heq

/-- What is written behind the lexeme of a token. -/
theorem Token.render_append (t : Token) (rest : List Char) :
    t.render ++ ['\n'] ++ rest =
      t.kind.name.toList ++ ' ' :: (t.lexeme ++ ' ' :: (t.renderLiteral ++ '\n' :: rest)) := by
  simp [Token.render]

/-- The line of a token tells all but the line of the source, and where it ends. -/
theorem readable_line :
    Readable Token.IsListed (fun t => t.render ++ ['\n']) Token.content where
  ne_nil t := by simp
  read := by
    rintro ⟨kind, text, literal, line⟩ ⟨kind', text', literal', line'⟩ rest rest' ht hu heq
    rw [Token.render_append, Token.render_append] at heq
    obtain ⟨hname, hbody⟩ :=
      append_mark_inj (Kind.space_not_mem_name kind) (Kind.space_not_mem_name kind') heq
    obtain rfl := Kind.eq_of_name_eq hname
    rcases ht with ht | ht <;> rcases hu with hu | hu
    · obtain ⟨rfl, hvalue⟩ := ht.append_space_inj hu hbody
      obtain ⟨-, rfl⟩ := ht.unique hu
      exact ⟨rfl, (List.cons.inj (List.append_cancel_left hvalue)).2⟩
    -- No lexeme is of the kind that the token at the end has.
    · cases hu
      exact absurd rfl ht.kind_ne_endOfFile
    · cases ht
      exact absurd rfl hu.kind_ne_endOfFile
    · cases ht
      cases hu
      have hvalue := (List.cons.inj (List.append_cancel_left hbody)).2
      exact ⟨rfl, (List.cons.inj (List.append_cancel_left hvalue)).2⟩

/-! ### Errors -/

/-- The character of a message that tells its fault from the others. -/
def Fault.mark : Fault → Char
  | unexpectedCharacter _ => 'a'
  | unterminatedString => 's'
  | unterminatedBlockComment => 'b'
  | invalidNumber _ => 'v'

/-- The mark of a fault stands at the same place in every message. -/
theorem Fault.getElem?_message (f : Fault) (rest : List Char) :
    (f.message ++ rest)[13]? = some f.mark := by
  cases f <;> rfl

/-- The message about an unexpected character quotes it. -/
theorem Fault.message_append (c : Char) (rest : List Char) :
    (unexpectedCharacter c).message ++ rest =
      "Unexpected character '".toList ++ c :: ("'.".toList ++ rest) := by
  have hmessage : (unexpectedCharacter c).message =
      "Unexpected character '".toList ++ c :: "'.".toList := rfl
  generalize "Unexpected character '".toList = start at hmessage ⊢
  generalize "'.".toList = stop at hmessage ⊢
  rw [hmessage, List.append_assoc, List.cons_append]

/-- A message tells the fault, but for one that quotes a text of any length. -/
theorem Fault.append_inj {f g : Fault} {rest rest' : List Char}
    (hf : ∀ text, f ≠ .invalidNumber text) (hg : ∀ text, g ≠ .invalidNumber text)
    (h : f.message ++ rest = g.message ++ rest') : f = g ∧ rest = rest' := by
  have hmark : f.mark = g.mark := by
    have hchar := f.getElem?_message rest
    rw [h, g.getElem?_message] at hchar
    exact (Option.some.inj hchar).symm
  match f, g with
  | .unexpectedCharacter c, .unexpectedCharacter d =>
      rw [message_append, message_append] at h
      obtain ⟨rfl, hend⟩ := List.cons.inj (List.append_cancel_left h)
      exact ⟨rfl, List.append_cancel_left hend⟩
  | .unterminatedString, .unterminatedString => exact ⟨rfl, List.append_cancel_left h⟩
  | .unterminatedBlockComment, .unterminatedBlockComment =>
      exact ⟨rfl, List.append_cancel_left h⟩
  | .invalidNumber text, _ => exact absurd rfl (hf text)
  | _, .invalidNumber text => exact absurd rfl (hg text)
  | .unexpectedCharacter _, .unterminatedString
  | .unexpectedCharacter _, .unterminatedBlockComment
  | .unterminatedString, .unexpectedCharacter _
  | .unterminatedString, .unterminatedBlockComment
  | .unterminatedBlockComment, .unexpectedCharacter _
  | .unterminatedBlockComment, .unterminatedString => cases hmark

/-- What is written behind the line of an error. -/
theorem Reporter.lineOf_append (e : LexicalError) (rest : List Char) :
    lineOf e ++ rest =
      "[line ".toList ++ (Nat.toDigits 10 e.line ++ ']' :: (" Error: ".toList ++
        (e.fault.message ++ '\n' :: rest))) := by
  have hline : lineOf e = "[line ".toList ++ Nat.toDigits 10 e.line ++
      ']' :: " Error: ".toList ++ e.fault.message ++ ['\n'] := rfl
  generalize "[line ".toList = start at hline ⊢
  generalize " Error: ".toList = word at hline ⊢
  rw [hline]
  simp

theorem bracket_not_mem_toDigits (n : Nat) : ']' ∉ Nat.toDigits 10 n := by
  intro hmem
  cases Nat.isDigit_of_mem_toDigits (by decide) (by decide) hmem

/-- The line of an error tells the error, and where it ends. -/
theorem readable_error :
    Readable (fun e => ∀ text, e.fault ≠ .invalidNumber text) Reporter.lineOf id where
  ne_nil e := by simp [Reporter.lineOf]
  read := by
    rintro ⟨fault, line⟩ ⟨fault', line'⟩ rest rest' hfault hfault' heq
    rw [Reporter.lineOf_append, Reporter.lineOf_append] at heq
    obtain ⟨hdigits, hbody⟩ := append_mark_inj (bracket_not_mem_toDigits line)
      (bracket_not_mem_toDigits line') (List.append_cancel_left heq)
    have hline : line = line' := calc
      line = Nat.ofDigitChars 10 (Nat.toDigits 10 line) 0 := Nat.ofDigitChars_ten_toDigits.symm
      _ = Nat.ofDigitChars 10 (Nat.toDigits 10 line') 0 := by rw [hdigits]
      _ = line' := Nat.ofDigitChars_ten_toDigits
    obtain ⟨rfl, hrest⟩ := Fault.append_inj hfault hfault' (List.append_cancel_left hbody)
    exact ⟨congrArg (LexicalError.mk fault) hline, (List.cons.inj hrest).2⟩

/-! ### Scans -/

/-- The token at the end tells where the tokens of a scan end. -/
theorem exists_map_content_scan (source : List Char) :
    ∃ front, (scan source).tokens.map Token.content = front ++ [(.endOfFile, [], none)] ∧
      (Kind.endOfFile, [], none) ∉ front := by
  refine ⟨((itemsOf 1 (tilesOf source)).filterMap Item.token?).map Token.content, ?_, ?_⟩
  · rw [tokens_scan, List.map_append]
    rfl
  · intro hmem
    obtain ⟨t, ht, hcontent⟩ := List.mem_map.mp hmem
    have hlexeme := lexeme_of_mem_itemsOf (mem_filterMap_token?.mp ht)
    exact hlexeme.kind_ne_endOfFile (congrArg Prod.fst hcontent)

/-- In a row of tokens from several scans, it can be told where those of the first one end. -/
theorem readable_tokens :
    Readable (fun _ : List Char => True) (fun source => (scan source).tokens.map Token.content)
      (fun source => (scan source).tokens.map Token.content) where
  ne_nil source := by
    obtain ⟨front, htokens, -⟩ := exists_map_content_scan source
    rw [htokens]
    exact List.append_ne_nil_of_right_ne_nil front (List.cons_ne_nil _ [])
  read := by
    intro source source' rest rest' _ _ heq
    obtain ⟨front, htokens, hfront⟩ := exists_map_content_scan source
    obtain ⟨front', htokens', hfront'⟩ := exists_map_content_scan source'
    rw [htokens, htokens', List.append_assoc, List.append_assoc] at heq
    obtain ⟨rfl, hrest⟩ := append_mark_inj hfront hfront' heq
    exact ⟨htokens.trans htokens'.symm, hrest⟩

/-- The listings of several scans tell the tokens of all of them. -/
theorem flatMap_tokens_of_flatMap_listing {sources sources' : List (List Char)}
    (h : sources.flatMap (fun source => Session.listing (scan source).tokens) =
      sources'.flatMap (fun source => Session.listing (scan source).tokens)) :
    sources.flatMap (fun source => (scan source).tokens.map Token.content) =
      sources'.flatMap (fun source => (scan source).tokens.map Token.content) := by
  have hlisted : ∀ sources : List (List Char),
      ∀ t ∈ sources.flatMap (fun source => (scan source).tokens), t.IsListed := by
    intro sources t ht
    obtain ⟨source, -, hmem⟩ := List.mem_flatMap.mp ht
    exact isListed_of_mem_scan hmem
  have hlines : ∀ sources : List (List Char),
      sources.flatMap (fun source => Session.listing (scan source).tokens) =
        (sources.flatMap (fun source => (scan source).tokens)).flatMap
          (fun t => t.render ++ ['\n']) :=
    fun sources => List.flatMap_assoc.symm
  rw [hlines, hlines] at h
  have hcontents := readable_line.map_eq (hlisted sources) (hlisted sources') h
  rwa [List.map_flatMap, List.map_flatMap] at hcontents

/-- **Listings lose nothing.**  If the listings of the tokens of some sources, one
behind the other, are the same text as those of others, there are as many of the
one as of the other, and source by source the tokens agree in kind, lexeme and
value.  If the lines for the errors of two sources are the same text, the errors
are the same. -/
theorem listing_injective :
    (∀ sources sources' : List (List Char),
      sources.flatMap (fun source => Session.listing (scan source).tokens) =
          sources'.flatMap (fun source => Session.listing (scan source).tokens) →
        sources.length = sources'.length ∧
          List.Forall₂ (fun source source' =>
            (scan source).tokens.map Token.content = (scan source').tokens.map Token.content)
            sources sources') ∧
      ∀ source source' : List Char,
        (scan source).sink.toList.flatMap Reporter.lineOf =
            (scan source').sink.toList.flatMap Reporter.lineOf →
          (scan source).sink.toList = (scan source').sink.toList := by
  constructor
  · intro sources sources' heq
    have hmap := readable_tokens.map_eq (fun _ _ => trivial) (fun _ _ => trivial)
      (flatMap_tokens_of_flatMap_listing heq)
    have hpairs : List.Forall₂ (fun source source' =>
        (scan source).tokens.map Token.content = (scan source').tokens.map Token.content)
        sources sources' := by
      rw [← List.forall₂_eq_eq_eq] at hmap
      exact List.forall₂_map_left_iff.mp (List.forall₂_map_right_iff.mp hmap)
    exact ⟨hpairs.length_eq, hpairs⟩
  · intro source source' heq
    have hmap := readable_error.map_eq (fun _ he => ne_invalidNumber_of_mem_scan he)
      (fun _ he => ne_invalidNumber_of_mem_scan he) heq
    rwa [List.map_id, List.map_id] at hmap

/-- A string that looks like the end of a scan does not pass for one. -/
theorem listing_injective_string :
    List.Forall₂ (fun source source' =>
        (scan source).tokens.map Token.content = (scan source').tokens.map Token.content)
        ["x # 1".toList, "\"\nEOF  nil\n\" /* \n */ y".toList]
        [" x".toList, "\"\nEOF  nil\n\"y".toList] ∧
      (scan "@ x \n \"".toList).sink.toList = (scan "y@\n\"".toList).sink.toList :=
  ⟨(listing_injective.1 ["x # 1".toList, "\"\nEOF  nil\n\" /* \n */ y".toList]
      [" x".toList, "\"\nEOF  nil\n\"y".toList] (by decide +kernel)).2,
    listing_injective.2 "@ x \n \"".toList "y@\n\"".toList (by decide +kernel)⟩

end LoxLexer
