import LoxLexer.Text.Cluster
import LoxLexer.Text.Utf8

/-!
# Lines as they were typed

A line that was typed holds the keys that were pressed, and a backspace among
them takes back the cluster before it, if there is one.  How much there is to
take back is known as a number of bytes below 256.  Of a longer cluster only
as much is taken back as the number says, and where that is not a number of
whole characters the line cannot be made out.
-/

namespace LoxLexer

/-- The key that takes back what was typed last. -/
def backspace : Char := '\x08'

/-- A line that is being typed. -/
structure Typed where
  /-- The sizes of the clusters that can be taken back, the last one first. -/
  sizes : List Nat := []
  /-- What has been typed and not taken back, in reverse order. -/
  kept : List Char := []
deriving DecidableEq, Repr

namespace Typed

/-- Types one more cluster, or takes back the last one. -/
def press (t : Typed) (cluster : List Char) : Option Typed :=
  if cluster = [backspace] then
    match t.sizes with
    | [] => some t
    | size :: sizes => (Utf8.cut? size t.kept).map (fun halves => ⟨sizes, halves.2⟩)
  else some ⟨Utf8.size cluster % 256 :: t.sizes, cluster.reverse ++ t.kept⟩

/-- The line that comes of these keys. -/
def line? (keys : List Char) : Option (List Char) :=
  ((clusters keys).foldlM press {}).map (fun t => t.kept.reverse)

end Typed

end LoxLexer
