import Formula.Expr
import Formula.Token

/-!
# Places in a text, and trees read from them

A `Cursor` is a place in a text. A tree that is read carries its height (`Bounded`), which
is never above `maxDepth`, and the place where reading goes on (`Parsed`). At least one
token lies between the place where a tree starts and the place where reading goes on, which
is why reading ends.
-/

namespace Formula

/-- How many levels of terms may nest, and how high a tree may grow. -/
def maxDepth : Nat := 256

/-- A place in a text : how many characters stand before it, and the tokens after it. -/
structure Cursor where
  position : Nat
  tokens : List Token

/-- A tree with its height, which is within the limit. -/
structure Bounded where
  tree : Expr
  height : Nat
  height_eq : height = tree.height
  height_le : height ≤ maxDepth

/-- A tree read from the tokens at `start`, of which at least one was taken. -/
structure Parsed (start : Cursor) extends Bounded where
  next : Cursor
  shorter : next.tokens.length < start.tokens.length

/-- The same tree, read from an earlier place. -/
def Parsed.widen {c start : Cursor} (p : Parsed c)
    (h : c.tokens.length ≤ start.tokens.length) : Parsed start :=
  { p with shorter := Nat.lt_of_lt_of_le p.shorter h }

/-- The number or variable `tree`. -/
def Bounded.leaf (tree : Expr) (h : tree.height = 1) : Bounded :=
  ⟨tree, 1, h.symm, by decide⟩

end Formula
