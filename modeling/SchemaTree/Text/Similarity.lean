/-!
# Similarity of texts

How much of two texts matches: the longest block that both contain, and so on to its left and to its
right. Of several longest blocks the one that starts first in the first text counts, and of several
places of it in the second text the first one.

`closest` picks the names that are similar enough to a word to be meant by it.
-/

namespace SchemaTree.Text

/-- The length of the longest common start of two texts. -/
def commonStart : List Char → List Char → Nat
  | a :: as, b :: bs => if a = b then commonStart as bs + 1 else 0
  | _, _ => 0

/-- A block that two texts share. -/
structure Block where
  inFirst : Nat
  inSecond : Nat
  length : Nat

/-- The longer of two blocks; of equally long ones the first. -/
def Block.longer (a b : Block) : Block := if a.length < b.length then b else a

/-- The longest block that two texts share. -/
def longestBlock (a b : List Char) : Block :=
  (List.range a.length).foldl
    (fun best i => (List.range b.length).foldl
      (fun best j => best.longer ⟨i, j, commonStart (a.drop i) (b.drop j)⟩) best)
    ⟨0, 0, 0⟩

/-- How many characters of two texts match, for texts of which the first is no longer than `bound`.
-/
def matchingWithin : Nat → List Char → List Char → Nat
  | 0, _, _ => 0
  | bound + 1, a, b =>
    let block := longestBlock a b
    if block.length = 0 then 0
    else
      matchingWithin bound (a.take block.inFirst) (b.take block.inSecond) + block.length +
        matchingWithin bound (a.drop (block.inFirst + block.length))
          (b.drop (block.inSecond + block.length))

/-- How many characters of two texts match. -/
def matching (a b : String) : Nat := matchingWithin a.length a.toList b.toList

/-- Whether at least three fifths of two texts match. -/
def isSimilar (a b : String) : Bool := 3 * (a.length + b.length) ≤ 10 * matching a b

/-- Whether one name is as similar to a word as another; of equally similar ones the later in
alphabetical order comes first. -/
def atLeastAsSimilar (word a b : String) : Bool :=
  let left := matching a word * (b.length + word.length)
  let right := matching b word * (a.length + word.length)
  right < left || left = right && decide (b ≤ a)

/-- The names that may be meant by a word, at most three, in alphabetical order. -/
def closest (word : String) (names : List String) : List String :=
  let similar := names.filter fun name => isSimilar name word
  ((similar.mergeSort (atLeastAsSimilar word)).take 3).mergeSort (fun a b => decide (a ≤ b))

end SchemaTree.Text
