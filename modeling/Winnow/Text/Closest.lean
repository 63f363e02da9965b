/-!
# Words close to a word

Suggestions for a misspelt word. Two words are as alike as twice the number of characters they share, block by block,
over their joint length: the longest common block is taken first, then the same is done left and right of it. In a word
of two hundred characters or more, a character that is too frequent does not begin a block, though it may extend one.
-/

namespace Winnow.Text

/-- A common block of two words: where it begins in each, and its size. -/
structure Block where
  left : Nat
  right : Nat
  size : Nat

/-- How many characters two words share at their beginning, counting only admitted characters. -/
def sharedStart (admitted : Char → Bool) : List Char → List Char → Nat
  | a :: as, b :: bs => if a = b && admitted b then sharedStart admitted as bs + 1 else 0
  | _, _ => 0

/-- The better of a block and the blocks that begin at one place of the left word and any place of the right one. -/
def longestAgainst (admitted : Char → Bool) (i : Nat) (as : List Char) : Nat → List Char → Block → Block
  | _, [], best => best
  | j, b :: bs, best =>
    let size := sharedStart admitted as (b :: bs)
    longestAgainst admitted i as (j + 1) bs (if best.size < size then ⟨i, j, size⟩ else best)

/-- The longest block, the leftmost of several. -/
def longestBlock (admitted : Char → Bool) (word : List Char) : Nat → List Char → Block → Block
  | _, [], best => best
  | i, a :: as, best => longestBlock admitted word (i + 1) as (longestAgainst admitted i (a :: as) 0 word best)

/-- A block made as long as the words allow, on both ends and by any character. -/
def Block.extend (block : Block) (as bs : List Char) : Block :=
  let back := sharedStart (fun _ => true) (as.take block.left).reverse (bs.take block.right).reverse
  let on := sharedStart (fun _ => true) (as.drop (block.left + block.size)) (bs.drop (block.right + block.size))
  ⟨block.left - back, block.right - back, back + block.size + on⟩

/-- How many characters two words share, block by block; the fuel is the length of the left word. -/
def sharedCount (admitted : Char → Bool) : Nat → List Char → List Char → Nat
  | 0, _, _ => 0
  | fuel + 1, as, bs =>
    let block := (longestBlock admitted bs 0 as ⟨0, 0, 0⟩).extend as bs
    if block.size = 0 then 0
    else
      block.size + sharedCount admitted fuel (as.take block.left) (bs.take block.right) +
        sharedCount admitted fuel (as.drop (block.left + block.size)) (bs.drop (block.right + block.size))

/-- The characters that may begin a block: in a long word, those that make up no more than about a hundredth of it. -/
def admittedIn (word : List Char) (c : Char) : Bool :=
  word.length < 200 || word.count c ≤ word.length / 100 + 1

/-- How alike two words are, as a fraction: numerator and denominator. Two empty words are wholly alike. -/
def likeness (candidate word : List Char) : Nat × Nat :=
  let total := candidate.length + word.length
  if total = 0 then (1, 1)
  else (2 * sharedCount (admittedIn word) candidate.length candidate word, total)

/-- Whether one scored candidate goes before another: by likeness, then by the later text. -/
def goesBefore (x y : (Nat × Nat) × String) : Bool :=
  let left := x.1.1 * y.1.2
  let right := y.1.1 * x.1.2
  left > right || (left == right && !(x.2 < y.2))

/-- The candidates, at most three, that are alike to a word by three fifths or more, the most alike first. -/
def closest (candidates : List String) (word : List Char) : List String :=
  let scored := candidates.map fun candidate => (likeness candidate.toList word, candidate)
  let near := scored.filter fun entry => 3 * entry.1.2 ≤ 5 * entry.1.1
  ((near.mergeSort goesBefore).take 3).map (·.2)

end Winnow.Text
