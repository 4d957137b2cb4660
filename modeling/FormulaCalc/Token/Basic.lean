import FormulaCalc.VarTable
/-!
# Tokens

The first token of a text.  A token is a numeral, a letter of the table, an operator or a bracket.
Signs depend on where they stand: at the start of the text or of a bracketed group a `+` or `-`
belongs to the numeral or letter behind it, and is an error in front of anything else; elsewhere,
and as the last character of a text, it is an operator.

`Token.scan?` returns the token with the rest of the text, and nothing where no token starts.
`scan?_eq_some` says that the token and the rest make up the text and that the token is not empty.
-/

namespace FormulaCalc

namespace Token

/-- The kinds of tokens. -/
inductive Kind where
  | number
  | letter
  | additive
  | multiplicative
  | power
  | opening
  | closing
deriving DecidableEq, Repr

/-- The operator or bracket a character stands for, and whether it is the inverse one of its kind. -/
def symbol? : Char → Option (Kind × Bool)
  | '+' => some (.additive, false)
  | '-' => some (.additive, true)
  | '*' => some (.multiplicative, false)
  | '/' => some (.multiplicative, true)
  | '^' => some (.power, false)
  | '(' => some (.opening, false)
  | ')' => some (.closing, false)
  | _ => none

/-- The characters numerals are made of. -/
def isNumeralChar (c : Char) : Bool :=
  c.isDigit || c = '.'

/-- At least one digit and at most one point. -/
def isNumeral (text : List Char) : Bool :=
  text.any Char.isDigit && text.count '.' ≤ 1

/-- The characters that can be a sign. -/
def isSign (c : Char) : Bool :=
  c = '+' || c = '-'

end Token

/--
A token: its kind, its characters, and a mark.  The mark is set on `-` and `/`, and on a numeral
or letter that carries a sign, whichever sign it is.
-/
structure Token where
  kind : Token.Kind
  inverted : Bool
  text : List Char
deriving DecidableEq, Repr

namespace Token

/-- The numeral or letter at the front of a text.  A numeral takes all digits and points it can. -/
def atom? (table : VarTable) : List Char → Option (Token × List Char)
  | [] => none
  | c :: rest =>
    if isNumeralChar c then
      let numeral := (c :: rest).takeWhile isNumeralChar
      if isNumeral numeral then
        some (⟨.number, false, numeral⟩, (c :: rest).dropWhile isNumeralChar)
      else none
    else if table.contains c then some (⟨.letter, false, [c]⟩, rest)
    else none

/-- The token with a sign in front. -/
def signed (sign : Char) (token : Token) : Token :=
  ⟨token.kind, true, sign :: token.text⟩

/-- The first token of a text, which may stand at the start of a group. -/
def scan? (table : VarTable) (atGroupStart : Bool) : List Char → Option (Token × List Char)
  | [] => none
  | c :: rest =>
    if atGroupStart && isSign c && !rest.isEmpty then
      (atom? table rest).map fun found => (found.1.signed c, found.2)
    else
      match symbol? c with
      | some (kind, inverted) => some (⟨kind, inverted, [c]⟩, rest)
      | none => atom? table (c :: rest)

theorem atom?_eq_some {table : VarTable} {text rest : List Char} {token : Token}
    (h : atom? table text = some (token, rest)) :
    token.text ++ rest = text ∧ token.text ≠ [] := by
  cases text with
  | nil => simp [atom?] at h
  | cons c tail =>
    simp only [atom?] at h
    split at h
    · next hc =>
      split at h
      · obtain ⟨rfl, rfl⟩ := Prod.mk.inj (Option.some.inj h)
        refine ⟨List.takeWhile_append_dropWhile, ?_⟩
        simp [List.takeWhile_cons_of_pos hc]
      · simp at h
    · split at h
      · obtain ⟨rfl, rfl⟩ := Prod.mk.inj (Option.some.inj h)
        simp
      · simp at h

/-- **A token is taken off the front of the text and is not empty.** -/
theorem scan?_eq_some {table : VarTable} {atGroupStart : Bool} {text rest : List Char}
    {token : Token} (h : scan? table atGroupStart text = some (token, rest)) :
    token.text ++ rest = text ∧ token.text ≠ [] := by
  cases text with
  | nil => simp [scan?] at h
  | cons c tail =>
    simp only [scan?] at h
    split at h
    · obtain ⟨⟨found, _⟩, hfound, heq⟩ := Option.map_eq_some_iff.1 h
      obtain ⟨rfl, rfl⟩ := Prod.mk.inj heq
      obtain ⟨htext, _⟩ := atom?_eq_some hfound
      simp [signed, ← htext]
    · split at h
      · obtain ⟨rfl, rfl⟩ := Prod.mk.inj (Option.some.inj h)
        simp
      · exact atom?_eq_some h

theorem length_rest_lt {table : VarTable} {atGroupStart : Bool} {text rest : List Char}
    {token : Token} (h : scan? table atGroupStart text = some (token, rest)) :
    rest.length < text.length := by
  obtain ⟨htext, hne⟩ := scan?_eq_some h
  have := List.length_pos_iff.2 hne
  rw [← htext, List.length_append]
  omega

end Token

end FormulaCalc
