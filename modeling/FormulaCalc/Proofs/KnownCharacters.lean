import FormulaCalc.Proofs.WellFormed
import FormulaCalc.Token.Walk
/-!
# Characters that can be read

Tokens are made of digits, points, symbols and the letters of the table; no token takes up any
other character.  So reading stops in front of the first unknown character of a text, at the latest
(`unread_ne_nil_of_unknown`), and a text with an unknown character is not well formed
(`isKnown_of_wellFormed`).

The space is unknown.  So it can stand between the tokens in a listing, and the tokens can be read
off the listing again (`splitOn_listing`).
-/

namespace FormulaCalc

/-- Whether a character can be part of a token. -/
def IsKnown (table : VarTable) (c : Char) : Prop :=
  Token.isNumeralChar c ∨ (Token.symbol? c).isSome ∨ table.contains c

/-- The characters that can be part of a token whatever the table. -/
def commonChars : List Char :=
  ['0', '1', '2', '3', '4', '5', '6', '7', '8', '9', '.', '+', '-', '*', '/', '^', '(', ')']

variable {table : VarTable}

section Characters

theorem mem_commonChars_of_isDigit
    {c : Char}
    (h : c.isDigit) :
    c ∈ commonChars := by
  have hdigits : ∀ n < 10, Char.ofNat (48 + n) ∈ commonChars := by
    decide
  have hrange := toNat_of_isDigit h
  obtain ⟨n, hn⟩ : ∃ n, c.toNat = 48 + n :=
    ⟨c.toNat - 48, by omega⟩
  rw [← Char.ofNat_toNat c, hn]
  exact hdigits n (by omega)

theorem mem_commonChars_of_symbol
    {c : Char}
    (h : (Token.symbol? c).isSome) :
    c ∈ commonChars := by
  unfold Token.symbol? at h
  split at h <;> first | decide | cases h

/-- What is known is a common character or a letter of the table. -/
theorem mem_commonChars_or_contains
    {c : Char}
    (h : IsKnown table c) :
    c ∈ commonChars ∨ table.contains c := by
  rcases h with hnumeral | hsymbol | hletter
  · rcases isNumeralChar_iff.1 hnumeral with hdigit | rfl
    · exact .inl (mem_commonChars_of_isDigit hdigit)
    · exact .inl (by decide)
  · exact .inl (mem_commonChars_of_symbol hsymbol)
  · exact .inr hletter

theorem isKnown_of_isSign
    {sign : Char}
    (h : Token.isSign sign) :
    IsKnown table sign := by
  rcases isSign_iff.1 h with rfl | rfl <;> exact .inr (.inl rfl)

theorem isKnown_symbol
    (op : Operator) :
    IsKnown table op.symbol := by
  cases op <;> exact .inr (.inl rfl)

theorem isKnown_of_atom
    {numeral : Bool} {w : List Char}
    (h : Atom table numeral w) :
    ∀ c ∈ w, IsKnown table c := by
  intro c hc
  cases h with
  | numeral hn =>
      exact .inl (hn.chars c hc)
  | letter hletter =>
      rw [List.mem_singleton.1 hc]
      exact .inr (.inr hletter)

end Characters

section Reading

theorem isKnown_of_scan?
    {atGroupStart : Bool} {text rest : List Char} {token : Token}
    (h : Token.scan? table atGroupStart text = some (token, rest)) :
    ∀ c ∈ token.text, IsKnown table c := by
  intro c hc
  rcases scan?_cases h with ⟨_, hatom, -⟩ | ⟨sign, w, _, -, hsign, hatom, htext, -⟩ |
      ⟨symbol, htext, hsymbol⟩
  · exact isKnown_of_atom hatom c hc
  · rw [htext] at hc
    rcases List.mem_cons.1 hc with rfl | hc
    · exact isKnown_of_isSign hsign
    · exact isKnown_of_atom hatom c hc
  · rw [htext] at hc
    rw [List.mem_singleton.1 hc]
    exact .inr (.inl (Option.isSome_iff_exists.2 ⟨_, hsymbol⟩))

theorem isKnown_of_mem_walk
    (atGroupStart : Bool) (text : List Char) :
    ∀ token ∈ (Token.walk table atGroupStart text).1, ∀ c ∈ token.text, IsKnown table c := by
  fun_induction Token.walk table atGroupStart text with
  | case1 =>
      intro token htoken
      cases htoken
  | case2 atGroupStart text token rest hscan next ih =>
      intro found hfound
      rcases List.mem_cons.1 hfound with rfl | hfound
      · exact isKnown_of_scan? hscan
      · exact ih found hfound

/-- **Reading never gets past an unknown character.** -/
theorem unread_ne_nil_of_unknown
    {text : List Char} {c : Char}
    (hmem : c ∈ text)
    (hunknown : ¬ IsKnown table c) :
    Token.unread table text ≠ [] := by
  intro hall
  have htext := Token.flatMap_tokens table text
  rw [hall, List.append_nil] at htext
  rw [← htext] at hmem
  obtain ⟨token, htoken, hc⟩ := List.mem_flatMap.1 hmem
  exact hunknown (isKnown_of_mem_walk true text token htoken c hc)

end Reading

section Listing

variable {text : List Char}

theorem not_isKnown_space :
    ¬ IsKnown table ' ' := by
  intro h
  rcases mem_commonChars_or_contains h with hcommon | hcontains
  · exact absurd hcommon (by decide)
  · exact absurd (VarTable.isAlpha_of_contains hcontains) (by decide)

theorem space_not_mem_of_mem_pieces
    {piece : List Char}
    (h : piece ∈ Token.pieces table text) :
    ' ' ∉ piece := by
  rcases List.mem_append.1 h with htoken | hunread
  · obtain ⟨token, hmem, rfl⟩ := List.mem_map.1 htoken
    exact fun hspace => not_isKnown_space (isKnown_of_mem_walk true text token hmem ' ' hspace)
  · split at hunread
    · cases hunread
    · rw [List.mem_singleton.1 hunread]
      decide

theorem pieces_ne_nil
    (table : VarTable)
    (h : text ≠ []) :
    Token.pieces table text ≠ [] := by
  rw [Token.pieces]
  intro hpieces
  obtain ⟨htokens, hunread⟩ := List.append_eq_nil_iff.1 hpieces
  split at hunread
  · next hempty =>
      rw [← Token.flatMap_tokens table text, List.map_eq_nil_iff.1 htokens,
        List.isEmpty_iff.1 hempty] at h
      exact h rfl
  · cases hunread

/-- **Cut at its spaces, a listing gives back the pieces it is made of.** -/
theorem splitOn_listing
    (table : VarTable)
    (h : text ≠ []) :
    (Token.listing table text).splitOn ' ' = Token.pieces table text := by
  rw [Token.listing]
  exact List.splitOn_intercalate ' ' (fun _ => space_not_mem_of_mem_pieces) (pieces_ne_nil table h)

end Listing

/-- **Well-formed texts have known characters only.** -/
theorem isKnown_of_wellFormed
    {part : Validity.Part} {w : List Char}
    (h : Validity.WellFormed table part w) :
    ∀ c ∈ w, IsKnown table c := by
  induction h with
  | atom hatom =>
      exact isKnown_of_atom hatom
  | bracketed _ ih =>
      intro c hc
      simp only [List.cons_append, List.mem_cons, List.mem_append, List.not_mem_nil,
        or_false] at hc
      rcases hc with rfl | hc | rfl
      · exact .inr (.inl rfl)
      · exact ih c hc
      · exact .inr (.inl rfl)
  | signed hsign hatom _ ih =>
      intro c hc
      simp only [List.cons_append, List.mem_cons, List.mem_append] at hc
      rcases hc with rfl | hc | hc
      · exact isKnown_of_isSign hsign
      · exact isKnown_of_atom hatom c hc
      · exact ih c hc
  | unsigned _ _ ihw ih | product _ _ _ ihw ih =>
      intro c hc
      exact (List.mem_append.1 hc).elim (ihw c) (ih c)
  | nothing =>
      nofun
  | @operator op _ _ _ _ _ _ ihw ih =>
      intro c hc
      simp only [List.cons_append, List.mem_cons, List.mem_append] at hc
      rcases hc with rfl | hc | hc
      · exact isKnown_symbol op
      · exact ihw c hc
      · exact ih c hc

end FormulaCalc
