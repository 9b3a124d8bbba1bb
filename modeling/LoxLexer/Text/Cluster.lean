import LoxLexer.Text.Joining

/-!
# Clusters

A text falls into clusters, each of which a reader takes for one character.
Whether a character joins the cluster before it depends on how the two join,
and in three cases on more of what is before: a picture joins a joiner only if
that follows a picture, indicators join in pairs, and a consonant joins if a
linker has bound it to the one before.

* `flatten_clusters`: the clusters make up the text.
-/

namespace LoxLexer

/-- What the end of a text says about the next character. -/
structure Ending where
  /-- How the last character joins. -/
  last : Joining := .control
  /-- The text ends in a picture and its extensions. -/
  picture : Bool := false
  /-- The text ends in such a picture and one joiner. -/
  joined : Bool := false
  /-- The text ends in an odd number of indicators. -/
  unpaired : Bool := false
  /-- The text ends in a consonant and marks that bridge. -/
  consonant : Bool := false
  /-- The text ends so, and there is a linker among the marks. -/
  linked : Bool := false
deriving DecidableEq, Repr

namespace Ending

/-- The end of the text with one more character. -/
def followedBy (e : Ending) (c : Char) : Ending :=
  let j := Joining.of c
  { last := j
    picture := j == .pictograph || (e.picture && j == .extending)
    joined := e.picture && j == .joiner
    unpaired := j == .regional && !e.unpaired
    consonant := j == .consonant || (e.consonant && Joining.bridges c)
    linked := (e.linked && Joining.bridges c) ||
      (e.consonant && Joining.linkers.contains c) }

/-- A character that joins in this way belongs to the last cluster of the text. -/
def takes (e : Ending) (j : Joining) : Bool :=
  match e.last, j with
  | .carriageReturn, .lineFeed => true
  | .carriageReturn, _ | .lineFeed, _ | .control, _ => false
  | _, .carriageReturn | _, .lineFeed | _, .control => false
  | .leadingJamo, .leadingJamo | .leadingJamo, .vowelJamo => true
  | .leadingJamo, .openSyllable | .leadingJamo, .closedSyllable => true
  | .openSyllable, .vowelJamo | .openSyllable, .trailingJamo => true
  | .vowelJamo, .vowelJamo | .vowelJamo, .trailingJamo => true
  | .closedSyllable, .trailingJamo | .trailingJamo, .trailingJamo => true
  | _, .extending | _, .joiner | _, .spacing => true
  | .prepended, _ => true
  | _, .consonant => e.linked
  | .joiner, .pictograph => e.joined
  | .regional, .regional => e.unpaired
  | _, _ => false

end Ending

/-- A text that is being taken apart: its end, and the clusters so far, all in
reverse order. -/
structure Clustering where
  ending : Ending := {}
  pieces : List (List Char) := []

namespace Clustering

/-- Takes in one more character. -/
def add (s : Clustering) (c : Char) : Clustering :=
  ⟨s.ending.followedBy c,
    match s.pieces with
    | piece :: pieces =>
      if s.ending.takes (.of c) then (c :: piece) :: pieces else [c] :: piece :: pieces
    | [] => [[c]]⟩

/-- The text that has been taken in. -/
def text (s : Clustering) : List Char := s.pieces.flatten.reverse

/-- A character that is taken in stands behind the text so far. -/
theorem text_add (s : Clustering) (c : Char) : (s.add c).text = s.text ++ [c] := by
  unfold add text
  split
  · split <;> simp_all
  · simp_all

theorem text_foldl_add (s : Clustering) (cs : List Char) :
    (cs.foldl add s).text = s.text ++ cs := by
  induction cs generalizing s with
  | nil => simp
  | cons c cs ih => simp [ih, text_add]

end Clustering

/-- The clusters of a text. -/
def clusters (text : List Char) : List (List Char) :=
  ((text.foldl Clustering.add {}).pieces.map List.reverse).reverse

/-- The clusters make up the text. -/
theorem flatten_clusters (text : List Char) : (clusters text).flatten = text := by
  have h := Clustering.text_foldl_add {} text
  simpa [Clustering.text, clusters, List.reverse_flatten] using h

end LoxLexer
