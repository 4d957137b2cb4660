import FormulaCalc.Token.Basic
/-!
# The tokens of a text

A text is read token by token, a token standing at the start of a group exactly when it is the
first one or follows an opening bracket.  Reading ends at the end of the text or at the first place
where no token starts; `flatten_tokens` says that the tokens and the unread rest make up the text.
-/

namespace FormulaCalc

namespace Token

/-- The tokens of a text, and the rest that no token starts. -/
def walk (table : VarTable) (atGroupStart : Bool) (text : List Char) : List Token × List Char :=
  match _h : scan? table atGroupStart text with
  | none => ([], text)
  | some (token, rest) =>
    let next := walk table (token.kind = .opening) rest
    (token :: next.1, next.2)
termination_by text.length
decreasing_by exact length_rest_lt (by assumption)

/-- The tokens of a text from its start on, up to the first place where none starts. -/
def tokens (table : VarTable) (text : List Char) : List Token :=
  (walk table true text).1

/-- What is left of a text at the first place where no token starts. -/
def unread (table : VarTable) (text : List Char) : List Char :=
  (walk table true text).2

theorem flatMap_walk (table : VarTable) (atGroupStart : Bool) (text : List Char) :
    (walk table atGroupStart text).1.flatMap Token.text ++ (walk table atGroupStart text).2
      = text := by
  fun_induction walk table atGroupStart text with
  | case1 => simp
  | case2 atGroupStart text token rest h next ih =>
    simp only [List.flatMap_cons, List.append_assoc, next, ih]
    exact (scan?_eq_some h).1

/-- **The tokens and the unread rest make up the text.** -/
theorem flatMap_tokens (table : VarTable) (text : List Char) :
    (tokens table text).flatMap Token.text ++ unread table text = text :=
  flatMap_walk table true text

/-- The tokens as they are listed for a reader, with a question mark for an unread rest. -/
def pieces (table : VarTable) (text : List Char) : List (List Char) :=
  (tokens table text).map Token.text ++ if (unread table text).isEmpty then [] else [['?']]

/-- The listed tokens with a space between any two. -/
def listing (table : VarTable) (text : List Char) : List Char :=
  [' '].intercalate (pieces table text)

end Token

end FormulaCalc
