import FormulaCalc.Text.Printable
/-!
# Quoted texts and characters

Messages show a text between double quotes and a character between single quotes.  The tab, the
line ends, NUL, the backslash and the surrounding quote are written with a backslash; any other
character that is not printable becomes its scalar value in hexadecimal between braces; the rest
is written as it is.
-/

namespace FormulaCalc

/-- The written form of a character between the given quotes. -/
def escapeChar (quote c : Char) : List Char :=
  if c = '\t' then ['\\', 't']
  else if c = '\r' then ['\\', 'r']
  else if c = '\n' then ['\\', 'n']
  else if c = '\x00' then ['\\', '0']
  else if c = '\\' ∨ c = quote then ['\\', c]
  else if isPrintable c then [c]
  else ['\\', 'u', '\x7b'] ++ Nat.toDigits 16 c.toNat ++ ['\x7d']

/-- A text between double quotes. -/
def quoteText (text : List Char) : String :=
  String.ofList ('"' :: text.flatMap (escapeChar '"') ++ ['"'])

/-- A character between single quotes. -/
def quoteChar (c : Char) : String :=
  String.ofList ('\'' :: escapeChar '\'' c ++ ['\''])

end FormulaCalc
