import FormulaCalc.Decimal.Shortest
import FormulaCalc.Expr.Basic
import FormulaCalc.Token.Basic
/-!
# Numerals

A numeral is a word of digits with at most one point and at least one digit.  The decimal reader
accepts exactly these words (`exists_decimal_read?_iff`), and the double-precision reader accepts
them with or without a sign, and nothing else (`isNumeral_of_read?`).

The second half separates the characters of numerals and the letters from the symbols, which are
the operators and the brackets.
-/

namespace FormulaCalc

/-- Digits with at most one point, and at least one digit. -/
structure IsNumeral (text : List Char) : Prop where
  chars : ∀ c ∈ text, Token.isNumeralChar c
  points : text.count '.' ≤ 1
  digit : ∃ c ∈ text, c.isDigit

theorem isNumeralChar_iff
    {c : Char} :
    Token.isNumeralChar c ↔ c.isDigit ∨ c = '.' := by
  simp [Token.isNumeralChar]

/-- The scanner's test of a run of digits and points. -/
theorem isNumeral_iff_of_chars
    {text : List Char}
    (h : ∀ c ∈ text, Token.isNumeralChar c) :
    Token.isNumeral text ↔ IsNumeral text := by
  simp only [Token.isNumeral, Bool.and_eq_true, List.any_eq_true, decide_eq_true_eq]
  constructor
  · rintro ⟨hdigit, hpoints⟩
    exact ⟨h, hpoints, hdigit⟩
  · intro hnumeral
    exact ⟨hnumeral.digit, hnumeral.points⟩

namespace IsNumeral

theorem ne_nil
    {text : List Char}
    (h : IsNumeral text) :
    text ≠ [] := by
  obtain ⟨c, hc, -⟩ := h.digit
  exact List.ne_nil_of_mem hc

theorem count_point_of_digits
    {digits : List Char}
    (h : ∀ c ∈ digits, c.isDigit) :
    digits.count '.' = 0 := by
  rw [List.count_eq_zero]
  intro hpoint
  cases h '.' hpoint

/-- Digits alone, at least one, are a numeral. -/
theorem of_digits
    {text : List Char}
    (hdigits : ∀ c ∈ text, c.isDigit)
    (hne : text ≠ []) :
    IsNumeral text := by
  refine ⟨fun c hc => isNumeralChar_iff.2 (.inl (hdigits c hc)), ?_, ?_⟩
  · rw [count_point_of_digits hdigits]
    exact Nat.zero_le 1
  · obtain ⟨c, hc⟩ := List.exists_mem_of_ne_nil text hne
    exact ⟨c, hc, hdigits c hc⟩

/-- The zero that differences from zero are written with. -/
theorem zero :
    IsNumeral ['0'] := by
  refine of_digits (fun c hc => ?_) (List.cons_ne_nil _ _)
  rw [List.mem_singleton.1 hc]
  rfl

/-- Digits around a point, at least one, are a numeral. -/
theorem of_point
    {whole fraction : List Char}
    (hwhole : ∀ c ∈ whole, c.isDigit)
    (hfraction : ∀ c ∈ fraction, c.isDigit)
    (hne : whole ++ fraction ≠ []) :
    IsNumeral (whole ++ '.' :: fraction) := by
  have hdigits : ∀ c ∈ whole ++ fraction, c.isDigit := by
    intro c hc
    exact (List.mem_append.1 hc).elim (hwhole c) (hfraction c)
  obtain ⟨-, -, d, hd, hdigit⟩ := of_digits hdigits hne
  refine ⟨fun c hc => ?_, ?_, d, ?_, hdigit⟩
  · rcases List.mem_append.1 hc with hc | hc
    · exact isNumeralChar_iff.2 (.inl (hwhole c hc))
    · rcases List.mem_cons.1 hc with rfl | hc
      · rfl
      · exact isNumeralChar_iff.2 (.inl (hfraction c hc))
  · have hcount : (whole ++ '.' :: fraction).count '.' = 1 := by
      rw [List.count_append, List.count_cons_self, count_point_of_digits hwhole,
        count_point_of_digits hfraction]
    exact Nat.le_of_eq hcount
  · rcases List.mem_append.1 hd with hd | hd
    · exact List.mem_append_left _ hd
    · exact List.mem_append_right _ (List.mem_cons_of_mem _ hd)

/-- What is no digit in a numeral is its only point. -/
theorem digits_around_point
    {whole fraction : List Char} {point : Char}
    (h : IsNumeral (whole ++ point :: fraction))
    (hpoint : ¬ point.isDigit) :
    point = '.' ∧ (∀ c ∈ fraction, c.isDigit) ∧ whole ++ fraction ≠ [] := by
  have heq : point = '.' := by
    have hchar := h.chars point (by simp)
    exact (isNumeralChar_iff.1 hchar).resolve_left hpoint
  have hcount : fraction.count '.' = 0 := by
    have hpoints := h.points
    simp only [heq, List.count_append, List.count_cons_self] at hpoints
    omega
  refine ⟨heq, fun c hc => ?_, ?_⟩
  · have hchar := h.chars c (by simp [hc])
    refine (isNumeralChar_iff.1 hchar).resolve_right ?_
    rintro rfl
    exact List.count_eq_zero.1 hcount hc
  · obtain ⟨c, hc, hdigit⟩ := h.digit
    simp only [List.mem_append, List.mem_cons] at hc
    rcases hc with hc | rfl | hc
    · exact List.ne_nil_of_mem (List.mem_append_left _ hc)
    · exact absurd hdigit hpoint
    · exact List.ne_nil_of_mem (List.mem_append_right _ hc)

end IsNumeral

/-- **The decimal reader accepts numerals and nothing else.** -/
theorem exists_decimal_read?_iff
    {text : List Char} :
    (∃ d, Decimal.read? text = some d) ↔ IsNumeral text := by
  have hsplit : text.takeWhile Char.isDigit ++ text.dropWhile Char.isDigit = text :=
    List.takeWhile_append_dropWhile
  have hwhole : ∀ c ∈ text.takeWhile Char.isDigit, c.isDigit := by
    exact List.all_eq_true.1 List.all_takeWhile
  have hstop := List.head?_dropWhile_not Char.isDigit text
  simp only [Decimal.read?]
  generalize text.takeWhile Char.isDigit = whole at *
  generalize text.dropWhile Char.isDigit = rest at *
  subst hsplit
  cases rest with
  | nil =>
      constructor
      · rintro ⟨d, hd⟩
        have hne : whole ≠ [] := by
          rintro rfl
          cases hd
        simpa using IsNumeral.of_digits hwhole hne
      · intro hnumeral
        have hne : whole ≠ [] := by
          simpa using hnumeral.ne_nil
        exact ⟨⟨Nat.ofDigitChars 10 whole 0, 0⟩, by simp [hne]⟩
  | cons point fraction =>
      have hpoint : ¬ point.isDigit := by
        simpa using hstop
      constructor
      · rintro ⟨d, hd⟩
        dsimp only at hd
        split at hd
        · next hcond =>
            obtain ⟨rfl, hfraction, hne⟩ := hcond
            exact .of_point hwhole
              (fun c hc => List.all_eq_true.1 hfraction c hc)
              (by simpa using hne)
        · simp at hd
      · intro hnumeral
        obtain ⟨heq, hfraction, hne⟩ := hnumeral.digits_around_point hpoint
        have hcond : point = '.' ∧ fraction.all Char.isDigit ∧ ¬ (whole ++ fraction).isEmpty :=
          ⟨heq, List.all_eq_true.2 hfraction, by simpa using hne⟩
        exact ⟨_, if_pos hcond⟩

section Symbols

theorem symbol?_eq_none_of_isNumeralChar
    {c : Char}
    (h : Token.isNumeralChar c) :
    Token.symbol? c = none := by
  unfold Token.symbol?
  split <;> first | rfl | cases h

theorem symbol?_eq_none_of_isAlpha
    {c : Char}
    (h : c.isAlpha) :
    Token.symbol? c = none := by
  unfold Token.symbol?
  split <;> first | rfl | cases h

theorem toNat_of_isDigit
    {c : Char}
    (h : c.isDigit) :
    48 ≤ c.toNat ∧ c.toNat ≤ 57 := by
  exact Char.isDigit_iff_toNat.1 h

theorem toNat_of_isAlpha
    {c : Char}
    (h : c.isAlpha) :
    (65 ≤ c.toNat ∧ c.toNat ≤ 90) ∨ (97 ≤ c.toNat ∧ c.toNat ≤ 122) := by
  rcases Bool.or_eq_true_iff.1 h with hupper | hlower
  · exact .inl (of_decide_eq_true hupper)
  · obtain ⟨hleft, hright⟩ := Bool.and_eq_true_iff.1 hlower
    exact .inr ⟨of_decide_eq_true hleft, of_decide_eq_true hright⟩

theorem isNumeralChar_eq_false_of_isAlpha
    {c : Char}
    (h : c.isAlpha) :
    Token.isNumeralChar c = false := by
  rw [Bool.eq_false_iff]
  intro hchar
  have halpha := toNat_of_isAlpha h
  rcases isNumeralChar_iff.1 hchar with hdigit | rfl
  · have hrange := toNat_of_isDigit hdigit
    omega
  · cases h

theorem IsNumeral.plain
    {n : List Char}
    (h : IsNumeral n) :
    ∀ c ∈ n, Token.symbol? c = none := by
  intro c hc
  exact symbol?_eq_none_of_isNumeralChar (h.chars c hc)

theorem isSign_iff
    {c : Char} :
    Token.isSign c ↔ c = '+' ∨ c = '-' := by
  simp [Token.isSign]

theorem ne_brackets_of_symbol?_eq_none
    {c : Char}
    (h : Token.symbol? c = none) :
    c ≠ '(' ∧ c ≠ ')' := by
  constructor <;>
  · rintro rfl
    cases h

theorem isSign_eq_false_of_symbol?_eq_none
    {c : Char}
    (h : Token.symbol? c = none) :
    Token.isSign c = false := by
  rw [Bool.eq_false_iff]
  intro hsign
  rcases isSign_iff.1 hsign with rfl | rfl <;> cases h

theorem ofSymbol?_eq_none_of_symbol?_eq_none
    {c : Char}
    (h : Token.symbol? c = none) :
    Operator.ofSymbol? c = none := by
  unfold Operator.ofSymbol?
  split <;> first | rfl | cases h

/-- A word without symbols starts with none. -/
theorem head_not_symbol
    {w : List Char}
    (h : ∀ c ∈ w, Token.symbol? c = none) :
    ∀ c ∈ w.head?, c ≠ '(' ∧ Token.isSign c = false := by
  intro c hc
  have hnone := h c (List.mem_of_mem_head? hc)
  exact ⟨(ne_brackets_of_symbol?_eq_none hnone).1, isSign_eq_false_of_symbol?_eq_none hnone⟩

end Symbols

section Values

theorem IsNumeral.head_not_sign
    {c : Char} {rest : List Char}
    (h : IsNumeral (c :: rest)) :
    c ≠ '-' ∧ c ≠ '+' := by
  have hchar := h.chars c List.mem_cons_self
  constructor <;>
  · rintro rfl
    cases hchar

theorem exists_read?_of_isNumeral
    {n : List Char}
    (h : IsNumeral n) :
    ∃ v, Binary64.read? n = some v := by
  obtain ⟨d, hd⟩ := exists_decimal_read?_iff.2 h
  refine ⟨Binary64.ofDecimal false d, ?_⟩
  unfold Binary64.read?
  split
  · exact absurd rfl h.head_not_sign.1
  · exact absurd rfl h.head_not_sign.2
  · rw [hd]
    rfl

theorem exists_read?_of_sign
    {sign : Char} {n : List Char}
    (hsign : Token.isSign sign)
    (h : IsNumeral n) :
    ∃ v, Binary64.read? (sign :: n) = some v := by
  obtain ⟨d, hd⟩ := exists_decimal_read?_iff.2 h
  rcases isSign_iff.1 hsign with rfl | rfl
  · exact ⟨Binary64.ofDecimal false d, by rw [Binary64.read?, hd]; rfl⟩
  · exact ⟨Binary64.ofDecimal true d, by rw [Binary64.read?, hd]; rfl⟩

/-- What reads as a double is a numeral, perhaps behind a sign. -/
theorem isNumeral_of_read?
    {text : List Char} {v : Binary64}
    (h : Binary64.read? text = some v) :
    IsNumeral text ∨
      ∃ sign n, text = sign :: n ∧ Token.isSign sign ∧ IsNumeral n := by
  unfold Binary64.read? at h
  split at h
  · next n =>
      obtain ⟨d, hd, -⟩ := Option.map_eq_some_iff.1 h
      exact .inr ⟨'-', n, rfl, rfl, exists_decimal_read?_iff.1 ⟨d, hd⟩⟩
  · next n =>
      obtain ⟨d, hd, -⟩ := Option.map_eq_some_iff.1 h
      exact .inr ⟨'+', n, rfl, rfl, exists_decimal_read?_iff.1 ⟨d, hd⟩⟩
  · obtain ⟨d, hd, -⟩ := Option.map_eq_some_iff.1 h
    exact .inl (exists_decimal_read?_iff.1 ⟨d, hd⟩)

end Values

end FormulaCalc
