/-!
# Block comments

Block comments nest: each opening mark inside a comment asks for a closing
mark of its own.  The marks are read from left to right and do not overlap,
so the star of an opening mark is never also the star of a closing one.

`afterBlock depth cs` passes over the text that closes `depth` comments and
returns what follows, or `none` if the text ends first.  What it returns is
an end of the text it is given, so a comment is what is missing from it.
-/

namespace LoxLexer

/-- What follows the text that closes `depth` open comments. -/
def afterBlock : Nat → List Char → Option (List Char)
  | 0, cs => some cs
  | depth + 1, '/' :: '*' :: cs => afterBlock (depth + 2) cs
  | depth + 1, '*' :: '/' :: cs => afterBlock depth cs
  | depth + 1, _ :: cs => afterBlock (depth + 1) cs
  | _ + 1, [] => none
termination_by structural _ cs => cs

/-- What follows a comment is an end of the text that it was looked for in. -/
theorem suffix_of_afterBlock {depth : Nat} {cs rest : List Char}
    (h : afterBlock depth cs = some rest) : rest <:+ cs := by
  fun_induction afterBlock depth cs with
  | case1 cs => cases h; exact List.suffix_refl _
  | case2 depth cs ih => exact (ih h).trans ⟨['/', '*'], rfl⟩
  | case3 depth cs ih => exact (ih h).trans ⟨['*', '/'], rfl⟩
  | case4 depth c cs _ _ ih => exact (ih h).trans ⟨[c], rfl⟩
  | case5 => cases h

end LoxLexer
