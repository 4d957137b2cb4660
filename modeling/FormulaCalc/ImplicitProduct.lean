import FormulaCalc.Token.Walk
/-!
# Implicit products

Two operands side by side are multiplied: `3x`, `2(x+1)` and `(x)(y)` stand for `3*x`, `2*(x+1)`
and `(x)*(y)`.  `insertStars` writes the stars, and `starPositions` says in front of which
positions of the text they were put.  A rest that no token starts is left as it is.
-/

namespace FormulaCalc

namespace ImplicitProduct

/-- Whether tokens of these kinds side by side mean a product. -/
def joins (before next : Token.Kind) : Bool :=
  (before = .number || before = .letter || before = .closing)
    && (next = .number || next = .letter || next = .opening)

/-- Whether a star goes in front of a token, given what came before it. -/
def needsStar (before : Option Token.Kind) (next : Token.Kind) : Bool :=
  before.any (joins · next)

/-- The characters of the tokens, with stars between operands side by side. -/
def writeTokens (before : Option Token.Kind) : List Token → List Char
  | [] => []
  | token :: rest =>
    (if needsStar before token.kind then ['*'] else []) ++ token.text
      ++ writeTokens (some token.kind) rest

/-- The positions of the tokens that have a star in front, counted from the given one. -/
def positionsFrom (before : Option Token.Kind) (position : Nat) : List Token → List Nat
  | [] => []
  | token :: rest =>
    (if needsStar before token.kind then [position] else [])
      ++ positionsFrom (some token.kind) (position + token.text.length) rest

/-- The text with a star between any two operands side by side. -/
def insertStars (table : VarTable) (text : List Char) : List Char :=
  writeTokens none (Token.tokens table text) ++ Token.unread table text

/-- The positions of the text in front of which stars are put, in increasing order. -/
def starPositions (table : VarTable) (text : List Char) : List Nat :=
  positionsFrom none 0 (Token.tokens table text)

end ImplicitProduct

end FormulaCalc
