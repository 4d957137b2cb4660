import FormulaCalc.Proofs.Numeral
/-!
# What the scanner takes off a text

A token is an atom, that is a numeral or a letter of the table, an atom with a sign, or a symbol.
For each of these the scanner is described in both directions: it takes the token off the front of
a text that starts with it, and nothing else is taken off (`scan?_cases`).

A numeral takes all the digits and points it can; so it is read as one token only where none of
them follows, which is what `NoNumeralAhead` says.
-/

namespace FormulaCalc

/-- Numerals and letters of the table; the first index tells numerals from letters. -/
inductive Atom (table : VarTable) : Bool → List Char → Prop
  | numeral {n : List Char} :
      IsNumeral n →
      Atom table true n
  | letter {c : Char} :
      table.contains c →
      Atom table false [c]

/-- No digit and no point comes next. -/
def NoNumeralAhead (rest : List Char) : Prop :=
  ∀ c ∈ rest.head?, Token.isNumeralChar c = false

theorem noNumeralAhead_nil :
    NoNumeralAhead [] := by
  nofun

theorem noNumeralAhead_cons
    {c : Char} {rest : List Char}
    (h : Token.isNumeralChar c = false) :
    NoNumeralAhead (c :: rest) := by
  intro d hd
  obtain rfl := Option.some.inj hd
  exact h

theorem isNumeralChar_eq_false_of_symbol?
    {c : Char} {symbol : Token.Kind × Bool}
    (h : Token.symbol? c = some symbol) :
    Token.isNumeralChar c = false := by
  rw [Bool.eq_false_iff]
  intro hchar
  rw [symbol?_eq_none_of_isNumeralChar hchar] at h
  cases h

/-- The kind of an atom. -/
def atomKind : Bool → Token.Kind
  | true => .number
  | false => .letter

/-- The kind of an operator. -/
def operatorKind : Level → Token.Kind
  | .sum => .additive
  | .product => .multiplicative
  | .power => .power

theorem symbol?_symbol
    (op : Operator) :
    ∃ inverted, Token.symbol? op.symbol = some (operatorKind op.level, inverted) := by
  cases op <;> exact ⟨_, rfl⟩

theorem symbol?_cases
    {c : Char} {kind : Token.Kind} {inverted : Bool}
    (h : Token.symbol? c = some (kind, inverted)) :
    (c = '(' ∧ kind = .opening) ∨
      (c = ')' ∧ kind = .closing) ∨
      ∃ op : Operator, c = op.symbol ∧ kind = operatorKind op.level := by
  unfold Token.symbol? at h
  split at h <;> cases h
  · exact .inr (.inr ⟨.add, rfl, rfl⟩)
  · exact .inr (.inr ⟨.sub, rfl, rfl⟩)
  · exact .inr (.inr ⟨.mul, rfl, rfl⟩)
  · exact .inr (.inr ⟨.div, rfl, rfl⟩)
  · exact .inr (.inr ⟨.pow, rfl, rfl⟩)
  · exact .inl ⟨rfl, rfl⟩
  · exact .inr (.inl ⟨rfl, rfl⟩)

namespace Atom

variable {table : VarTable} {numeral : Bool} {w : List Char}

theorem ne_nil
    (h : Atom table numeral w) :
    w ≠ [] := by
  cases h with
  | numeral hn =>
      exact hn.ne_nil
  | letter _ =>
      simp

theorem plain
    (h : Atom table numeral w) :
    ∀ c ∈ w, Token.symbol? c = none := by
  cases h with
  | numeral hn =>
      exact hn.plain
  | letter hc =>
      intro d hd
      rw [List.mem_singleton.1 hd]
      exact symbol?_eq_none_of_isAlpha (VarTable.isAlpha_of_contains hc)

theorem noNumeralAhead_append
    (h : Atom table false w)
    (rest : List Char) :
    NoNumeralAhead (w ++ rest) := by
  cases h with
  | letter hc =>
      exact noNumeralAhead_cons
        (isNumeralChar_eq_false_of_isAlpha (VarTable.isAlpha_of_contains hc))

end Atom

section Forward

variable {table : VarTable} {numeral : Bool} {w rest : List Char}

theorem takeWhile_numeral
    (hw : ∀ c ∈ w, Token.isNumeralChar c)
    (hrest : NoNumeralAhead rest) :
    (w ++ rest).takeWhile Token.isNumeralChar = w ∧
      (w ++ rest).dropWhile Token.isNumeralChar = rest := by
  rw [List.takeWhile_append_of_pos hw, List.dropWhile_append_of_pos hw]
  cases rest with
  | nil =>
      simp
  | cons c rest =>
      have hc := hrest c rfl
      simp [hc]

theorem atom?_of_atom
    (h : Atom table numeral w)
    (hrest : numeral = true → NoNumeralAhead rest) :
    Token.atom? table (w ++ rest) = some (⟨atomKind numeral, false, w⟩, rest) := by
  cases h with
  | numeral hn =>
      obtain ⟨htake, hdrop⟩ := takeWhile_numeral hn.chars (hrest rfl)
      obtain ⟨c, n, rfl⟩ := List.exists_cons_of_ne_nil hn.ne_nil
      have hc := hn.chars c List.mem_cons_self
      rw [List.cons_append] at htake hdrop ⊢
      rw [Token.atom?, if_pos hc]
      simp only [htake, hdrop, (isNumeral_iff_of_chars hn.chars).2 hn, if_true]
      rfl
  | @letter c hc =>
      have halpha := VarTable.isAlpha_of_contains hc
      rw [List.singleton_append, Token.atom?, isNumeralChar_eq_false_of_isAlpha halpha,
        if_neg (by decide), if_pos hc]
      rfl

/-- An atom is taken off a text, whether a group starts there or not. -/
theorem scan?_of_atom
    (h : Atom table numeral w)
    (hrest : numeral = true → NoNumeralAhead rest)
    (atGroupStart : Bool) :
    Token.scan? table atGroupStart (w ++ rest) =
      some (⟨atomKind numeral, false, w⟩, rest) := by
  have hatom := atom?_of_atom h hrest
  obtain ⟨c, tail, rfl⟩ := List.exists_cons_of_ne_nil h.ne_nil
  have hsymbol := h.plain c List.mem_cons_self
  have hsign := isSign_eq_false_of_symbol?_eq_none hsymbol
  rw [List.cons_append] at hatom ⊢
  rw [Token.scan?, hsign, hsymbol]
  simpa using hatom

/-- At the start of a group a sign is taken off together with its atom. -/
theorem scan?_of_signed
    {sign : Char}
    (hsign : Token.isSign sign)
    (h : Atom table numeral w)
    (hrest : numeral = true → NoNumeralAhead rest) :
    Token.scan? table true (sign :: w ++ rest) =
      some (⟨atomKind numeral, true, sign :: w⟩, rest) := by
  have hne : (w ++ rest).isEmpty = false := by
    simp [h.ne_nil]
  rw [List.cons_append, Token.scan?, hsign, hne, atom?_of_atom h hrest]
  rfl

/-- A symbol is taken off a text, unless it is a sign at the start of a group. -/
theorem scan?_of_symbol
    {c : Char} {kind : Token.Kind} {inverted atGroupStart : Bool}
    (h : Token.symbol? c = some (kind, inverted))
    (hsign : atGroupStart = true → Token.isSign c = false) :
    Token.scan? table atGroupStart (c :: rest) = some (⟨kind, inverted, [c]⟩, rest) := by
  rw [Token.scan?, if_neg, h]
  cases atGroupStart with
  | true =>
      simp [hsign rfl]
  | false =>
      simp

theorem scan?_opening
    (atGroupStart : Bool) :
    Token.scan? table atGroupStart ('(' :: rest) = some (⟨.opening, false, ['(']⟩, rest) := by
  exact scan?_of_symbol rfl fun _ => rfl

theorem scan?_closing
    (atGroupStart : Bool) :
    Token.scan? table atGroupStart (')' :: rest) = some (⟨.closing, false, [')']⟩, rest) := by
  exact scan?_of_symbol rfl fun _ => rfl

theorem scan?_operator
    (op : Operator) :
    ∃ inverted, Token.scan? table false (op.symbol :: rest) =
      some (⟨operatorKind op.level, inverted, [op.symbol]⟩, rest) := by
  obtain ⟨inverted, hsymbol⟩ := symbol?_symbol op
  exact ⟨inverted, scan?_of_symbol hsymbol nofun⟩

end Forward

section Backward

variable {table : VarTable} {text rest : List Char} {token : Token}

theorem atom_of_atom?
    (h : Token.atom? table text = some (token, rest)) :
    ∃ numeral,
      Atom table numeral token.text ∧
      token.kind = atomKind numeral ∧
      (numeral = true → NoNumeralAhead rest) := by
  cases text with
  | nil =>
      cases h
  | cons c tail =>
      simp only [Token.atom?] at h
      split at h
      · split at h
        · next hnumeral =>
            obtain ⟨rfl, rfl⟩ := Prod.mk.inj (Option.some.inj h)
            have hchars : ∀ d ∈ (c :: tail).takeWhile Token.isNumeralChar,
                Token.isNumeralChar d :=
              List.all_eq_true.1 List.all_takeWhile
            refine ⟨true, .numeral ((isNumeral_iff_of_chars hchars).1 hnumeral), rfl,
              fun _ d hd => ?_⟩
            have hstop := List.head?_dropWhile_not Token.isNumeralChar (c :: tail)
            rw [Option.mem_def.1 hd] at hstop
            exact hstop
        · cases h
      · split at h
        · next hc =>
            obtain ⟨rfl, rfl⟩ := Prod.mk.inj (Option.some.inj h)
            exact ⟨false, .letter hc, rfl, fun hnumeral => absurd hnumeral Bool.false_ne_true⟩
        · cases h

/-- The first token of a text is an atom, an atom with a sign that opens a group, or a symbol. -/
theorem scan?_cases
    {atGroupStart : Bool}
    (h : Token.scan? table atGroupStart text = some (token, rest)) :
    (∃ numeral,
        Atom table numeral token.text ∧
        token.kind = atomKind numeral ∧
        (numeral = true → NoNumeralAhead rest)) ∨
      (∃ sign w numeral,
        atGroupStart = true ∧
        Token.isSign sign ∧
        Atom table numeral w ∧
        token.text = sign :: w ∧
        token.kind = atomKind numeral ∧
        (numeral = true → NoNumeralAhead rest)) ∨
      ∃ c,
        token.text = [c] ∧
        Token.symbol? c = some (token.kind, token.inverted) := by
  cases text with
  | nil =>
      cases h
  | cons c tail =>
      simp only [Token.scan?] at h
      split at h
      · next hcond =>
          simp only [Bool.and_eq_true] at hcond
          obtain ⟨⟨found, behind⟩, hfound, heq⟩ := Option.map_eq_some_iff.1 h
          obtain ⟨rfl, rfl⟩ := Prod.mk.inj heq
          obtain ⟨numeral, hatom, hkind, hrest⟩ := atom_of_atom? hfound
          exact .inr (.inl
            ⟨c, found.text, numeral, hcond.1.1, hcond.1.2, hatom, rfl, hkind, hrest⟩)
      · split at h
        · next hsymbol =>
            obtain ⟨rfl, rfl⟩ := Prod.mk.inj (Option.some.inj h)
            exact .inr (.inr ⟨c, rfl, hsymbol⟩)
        · exact .inl (atom_of_atom? h)

end Backward

end FormulaCalc
