import FormulaCalc.Proofs.Building
import FormulaCalc.Proofs.Scanning
/-!
# Two readers of leaves

A numeral or a letter is read twice: the scanner takes it off the text as a token, and the builder
reads it again as a leaf, when a slice has no operator to be cut at.  The scanner takes all the
digits and points it can, and looks behind a sign for the atom the sign belongs to.  The leaf reader
takes the sign off, asks whether one letter is left, and otherwise hands the slice to the reader of
numerals.

Both take atoms with an optional sign (`SignedAtom`) and nothing else, so that they agree on every
slice (`leaf_agrees`).  Where the slice stands in a longer text does not matter, as long as no
digit and no point follows it.
-/

namespace FormulaCalc

/-- A numeral or a letter of the table, perhaps behind a sign. -/
inductive SignedAtom (table : VarTable) (numeral : Bool) : List Char → Prop
  | unsigned {w : List Char} :
      Atom table numeral w →
      SignedAtom table numeral w
  | signed {sign : Char} {w : List Char} :
      Token.isSign sign →
      Atom table numeral w →
      SignedAtom table numeral (sign :: w)

section Scanner

variable {table : VarTable} {numeral : Bool} {text rest : List Char} {token : Token}

theorem atomKind_inj
    {numeral' : Bool} :
    atomKind numeral = atomKind numeral' ↔ numeral = numeral' := by
  cases numeral <;> cases numeral' <;> simp [atomKind]

theorem exists_atomKind_iff
    {kind : Token.Kind} :
    (∃ numeral, kind = atomKind numeral) ↔ kind = .number ∨ kind = .letter := by
  simp [Bool.exists_bool, atomKind, or_comm]

/-- No symbol is of the kind of an atom. -/
theorem ne_atomKind_of_symbol?
    {c : Char} {kind : Token.Kind} {inverted : Bool}
    (h : Token.symbol? c = some (kind, inverted)) :
    kind ≠ atomKind numeral := by
  rcases symbol?_cases h with ⟨-, rfl⟩ | ⟨-, rfl⟩ | ⟨op, -, rfl⟩
  · cases numeral <;> simp [atomKind]
  · cases numeral <;> simp [atomKind]
  · cases op <;> cases numeral <;> simp [atomKind, operatorKind, Operator.level]

/-- The token that is a signed atom, in front of whatever does not prolong it. -/
theorem exists_scan?_of_signedAtom
    (h : SignedAtom table numeral text) :
    ∃ token, token.kind = atomKind numeral ∧
      ∀ rest, NoNumeralAhead rest →
        Token.scan? table true (text ++ rest) = some (token, rest) := by
  cases h with
  | unsigned hatom =>
      exact ⟨_, rfl, fun rest hrest => scan?_of_atom hatom (fun _ => hrest) true⟩
  | signed hsign hatom =>
      exact ⟨_, rfl, fun rest hrest => scan?_of_signed hsign hatom fun _ => hrest⟩

/-- A numeral or letter that is taken off whole is a signed atom. -/
theorem signedAtom_of_scan?
    (hscan : Token.scan? table true (text ++ rest) = some (token, rest))
    (hkind : token.kind = atomKind numeral) :
    SignedAtom table numeral text := by
  obtain rfl := List.append_cancel_right (Token.scan?_eq_some hscan).1
  rcases scan?_cases hscan with
    ⟨numeral', hatom, hkind', -⟩ | ⟨sign, w, numeral', -, hsign, hatom, htext, hkind', -⟩ |
      ⟨c, -, hsymbol⟩
  · obtain rfl := atomKind_inj.1 (hkind.symm.trans hkind')
    exact .unsigned hatom
  · obtain rfl := atomKind_inj.1 (hkind.symm.trans hkind')
    rw [htext]
    exact .signed hsign hatom
  · exact absurd hkind (ne_atomKind_of_symbol? hsymbol)

theorem exists_scan?_iff_signedAtom :
    (∃ token, Token.scan? table true text = some (token, []) ∧ token.kind = atomKind numeral) ↔
      SignedAtom table numeral text := by
  constructor
  · rintro ⟨token, hscan, hkind⟩
    rw [← List.append_nil text] at hscan
    exact signedAtom_of_scan? hscan hkind
  · intro h
    obtain ⟨token, hkind, hscan⟩ := exists_scan?_of_signedAtom h
    have hwhole := hscan [] noNumeralAhead_nil
    rw [List.append_nil] at hwhole
    exact ⟨token, hwhole, hkind⟩

/-- Where nothing prolongs it, the token does not depend on what comes next. -/
theorem scan?_of_scan?_elsewhere
    {rest' : List Char}
    (hscan : Token.scan? table true (text ++ rest) = some (token, rest))
    (hkind : token.kind = atomKind numeral)
    (hahead : NoNumeralAhead rest)
    (hahead' : NoNumeralAhead rest') :
    Token.scan? table true (text ++ rest') = some (token, rest') := by
  obtain ⟨found, -, hfound⟩ := exists_scan?_of_signedAtom (signedAtom_of_scan? hscan hkind)
  have htoken := hfound rest hahead
  rw [hscan] at htoken
  obtain ⟨rfl, -⟩ := Prod.mk.inj (Option.some.inj htoken)
  exact hfound rest' hahead'

/-- **A numeral or letter is taken off whole wherever no digit and no point follows it.** -/
theorem scan?_append_iff
    (hahead : NoNumeralAhead rest)
    (hkind : token.kind = .number ∨ token.kind = .letter) :
    Token.scan? table true (text ++ rest) = some (token, rest) ↔
      Token.scan? table true text = some (token, []) := by
  obtain ⟨numeral, hkind⟩ := exists_atomKind_iff.2 hkind
  constructor
  · intro hscan
    have hwhole := scan?_of_scan?_elsewhere hscan hkind hahead noNumeralAhead_nil
    rwa [List.append_nil] at hwhole
  · intro hscan
    rw [← List.append_nil text] at hscan
    exact scan?_of_scan?_elsewhere hscan hkind noNumeralAhead_nil hahead

end Scanner

namespace Expr

section LeafReader

variable {table : VarTable} {text : List Char} {c : Char}

theorem leaf_of_numeral
    (h : SignedAtom table true text) :
    ∃ v, Binary64.read? text = some v ∧ leaf table text = .ok (.number v) := by
  cases h with
  | unsigned hatom =>
      cases hatom with
      | numeral hn =>
          obtain ⟨v, hv⟩ := exists_read?_of_isNumeral hn
          have hsplit := splitSign_of_head fun c hc => (head_not_symbol hn.plain c hc).2
          refine ⟨v, hv, ?_⟩
          rw [leaf_eq_numeralLeaf hsplit hn]
          exact (numeralLeaf_eq_ok_iff hsplit).2 ⟨v, hv, rfl⟩
  | signed hsign hatom =>
      cases hatom with
      | numeral hn =>
          obtain ⟨v, hv⟩ := exists_read?_of_sign hsign hn
          refine ⟨v, hv, ?_⟩
          rw [leaf_eq_numeralLeaf (splitSign_of_sign hsign) hn]
          exact (numeralLeaf_eq_ok_iff (splitSign_of_sign hsign)).2 ⟨v, hv, rfl⟩

theorem exists_spellsLetter_of_signedAtom
    (h : SignedAtom table false text) :
    ∃ c, SpellsLetter c text ∧ table.contains c := by
  cases h with
  | unsigned hatom =>
      cases hatom with
      | letter hc =>
          exact ⟨_, .inl rfl, hc⟩
  | signed hsign hatom =>
      cases hatom with
      | letter hc =>
          exact ⟨_, .inr ⟨_, hsign, rfl⟩, hc⟩

theorem signedAtom_of_spellsLetter
    (h : SpellsLetter c text)
    (hc : table.contains c) :
    SignedAtom table false text := by
  rcases h with rfl | ⟨sign, hsign, rfl⟩
  · exact .unsigned (.letter hc)
  · exact .signed hsign (.letter hc)

/-- A letter of the table is its variable, negated behind a minus. -/
theorem leaf_of_letter
    (h : SignedAtom table false text) :
    ∃ c slot, SpellsLetter c text ∧ table.slotOf? c = some slot ∧
      leaf table text =
        .ok (if text.head? = some '-' then negation (.var slot c) else .var slot c) := by
  obtain ⟨c, hspells, hc⟩ := exists_spellsLetter_of_signedAtom h
  obtain ⟨slot, hslot⟩ := Option.isSome_iff_exists.1 hc
  have hsplit := (splitSign_eq_letter_iff (isAlpha_of_slotOf? hslot)).2 ⟨hspells, rfl⟩
  refine ⟨c, slot, hspells, hslot, ?_⟩
  rw [leaf_letter hsplit hslot]
  simp only [decide_eq_true_eq]

theorem exists_leaf_of_signedAtom
    {numeral : Bool}
    (h : SignedAtom table numeral text) :
    ∃ e, leaf table text = .ok e := by
  cases numeral with
  | true =>
      obtain ⟨v, -, hleaf⟩ := leaf_of_numeral h
      exact ⟨_, hleaf⟩
  | false =>
      obtain ⟨c, slot, -, -, hleaf⟩ := leaf_of_letter h
      exact ⟨_, hleaf⟩

/-- What the leaf reader makes of a text, by what the text is. -/
theorem leaf_trichotomy
    (table : VarTable) (text : List Char) :
    (∃ e numeral, leaf table text = .ok e ∧ SignedAtom table numeral text) ∨
      (∃ c, leaf table text = .error (.unknownLetter c) ∧
        SpellsLetter c text ∧ c.isAlpha ∧ table.slotOf? c = none) ∨
      leaf table text = .error (.invalidLeaf text) := by
  have haccepted {numeral : Bool} (hatom : SignedAtom table numeral text) :
      ∃ e numeral, leaf table text = .ok e ∧ SignedAtom table numeral text := by
    obtain ⟨e, hleaf⟩ := exists_leaf_of_signedAtom hatom
    exact ⟨e, numeral, hleaf, hatom⟩
  rcases leaf_cases table text with
    ⟨negative, c, hc, hsplit⟩ | ⟨negative, body, hsplit, hleaf⟩
  · have hspells := ((splitSign_eq_letter_iff hc).1 hsplit).1
    cases hslot : table.slotOf? c with
    | some slot =>
        exact .inl (haccepted (signedAtom_of_spellsLetter hspells (contains_of_slotOf? hslot)))
    | none =>
        exact .inr (.inl ⟨c, leaf_unknownLetter hspells hc hslot, hspells, hc, hslot⟩)
  · cases hv : Binary64.read? text with
    | some v =>
        rcases isNumeral_of_read? hv with hn | ⟨sign, n, rfl, hsign, hn⟩
        · exact .inl (haccepted (.unsigned (.numeral hn)))
        · exact .inl (haccepted (.signed hsign (.numeral hn)))
    | none =>
        rw [numeralLeaf_eq hsplit, hv] at hleaf
        exact .inr (.inr hleaf)

/-- **The leaf reader accepts signed atoms and nothing else.** -/
theorem exists_leaf_iff_signedAtom :
    (∃ e, leaf table text = .ok e) ↔ ∃ numeral, SignedAtom table numeral text := by
  constructor
  · rintro ⟨e, hleaf⟩
    rcases leaf_trichotomy table text with
      ⟨-, numeral, -, hatom⟩ | ⟨c, hunknown, -⟩ | hinvalid
    · exact ⟨numeral, hatom⟩
    · rw [hunknown] at hleaf
      cases hleaf
    · rw [hinvalid] at hleaf
      cases hleaf
  · rintro ⟨numeral, hatom⟩
    exact exists_leaf_of_signedAtom hatom

/-- **Single letters that are not in the table are the only ones reported as unknown.** -/
theorem leaf_eq_unknownLetter_iff :
    leaf table text = .error (.unknownLetter c) ↔
      SpellsLetter c text ∧ c.isAlpha ∧ table.slotOf? c = none := by
  constructor
  · intro hleaf
    rcases leaf_trichotomy table text with ⟨e, -, hok, -⟩ | ⟨d, hunknown, hletter⟩ | hinvalid
    · rw [hok] at hleaf
      cases hleaf
    · rw [hunknown] at hleaf
      obtain rfl := BuildError.unknownLetter.inj (Except.error.inj hleaf)
      exact hletter
    · rw [hinvalid] at hleaf
      cases hleaf
  · rintro ⟨hspells, hc, hslot⟩
    exact leaf_unknownLetter hspells hc hslot

theorem leaf_error_cases
    {error : BuildError}
    (h : leaf table text = .error error) :
    error = .invalidLeaf text ∨ ∃ c, error = .unknownLetter c := by
  rcases leaf_trichotomy table text with ⟨e, -, hok, -⟩ | ⟨c, hunknown, -⟩ | hinvalid
  · rw [hok] at h
    cases h
  · rw [hunknown] at h
    exact .inr ⟨c, (Except.error.inj h).symm⟩
  · rw [hinvalid] at h
    exact .inl (Except.error.inj h).symm

end LeafReader

section Agreement

/-- How the leaf reader and the scanner agree on a slice. -/
structure LeafAgrees (table : VarTable) (text : List Char) : Prop where
  /-- What is read as a leaf is what is taken off whole as a numeral or a letter. -/
  exists_leaf_iff : (∃ e, leaf table text = .ok e) ↔
    ∃ token, Token.scan? table true text = some (token, []) ∧
      (token.kind = .number ∨ token.kind = .letter)
  number : ∀ token, Token.scan? table true text = some (token, []) → token.kind = .number →
    ∃ v, Binary64.read? text = some v ∧ leaf table text = .ok (.number v)
  /-- A letter stands for its variable, which a minus negates. -/
  letter : ∀ token, Token.scan? table true text = some (token, []) → token.kind = .letter →
    ∃ c slot, SpellsLetter c text ∧ table.slotOf? c = some slot ∧
      leaf table text =
        .ok (if text.head? = some '-' then negation (.var slot c) else .var slot c)
  unknownLetter_iff : ∀ c, leaf table text = .error (.unknownLetter c) ↔
    SpellsLetter c text ∧ c.isAlpha ∧ table.slotOf? c = none
  /-- Every other slice is reported as a whole. -/
  error_cases : ∀ error, leaf table text = .error error →
    error = .invalidLeaf text ∨ ∃ c, error = .unknownLetter c
  /-- The token is the same wherever the slice stands, if no digit and no point follows it. -/
  scan?_ahead : ∀ rest token, NoNumeralAhead rest → token.kind = .number ∨ token.kind = .letter →
    (Token.scan? table true (text ++ rest) = some (token, rest) ↔
      Token.scan? table true text = some (token, []))

/--
A slice is read as a leaf exactly if the scanner, at the start of a group, takes it off whole as a
numeral or a letter, and the leaf is the number or the variable of that token.  Of the slices that
are refused, single letters that are not in the table are reported as unknown letters, whether a
sign stands in front of them or not, and all others as no leaves.
-/
theorem leaf_agrees
    (table : VarTable) (text : List Char) :
    LeafAgrees table text := by
  constructor
  case exists_leaf_iff =>
    rw [exists_leaf_iff_signedAtom]
    constructor
    · rintro ⟨numeral, hatom⟩
      obtain ⟨token, hscan, hkind⟩ := exists_scan?_iff_signedAtom.2 hatom
      exact ⟨token, hscan, exists_atomKind_iff.1 ⟨numeral, hkind⟩⟩
    · rintro ⟨token, hscan, hkind⟩
      obtain ⟨numeral, hkind⟩ := exists_atomKind_iff.2 hkind
      exact ⟨numeral, exists_scan?_iff_signedAtom.1 ⟨token, hscan, hkind⟩⟩
  case number =>
    intro token hscan hkind
    exact leaf_of_numeral (exists_scan?_iff_signedAtom.1 ⟨token, hscan, hkind⟩)
  case letter =>
    intro token hscan hkind
    exact leaf_of_letter (exists_scan?_iff_signedAtom.1 ⟨token, hscan, hkind⟩)
  case unknownLetter_iff =>
    exact fun c => leaf_eq_unknownLetter_iff
  case error_cases =>
    exact fun error herror => leaf_error_cases herror
  case scan?_ahead =>
    exact fun rest token hahead hkind => scan?_append_iff hahead hkind

end Agreement

end Expr

end FormulaCalc
