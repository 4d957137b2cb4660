import FormulaCalc.Proofs.Parsing
/-!
# Spelling out an expression

What is known of a text that is printed: how it is read, as a phrase of a level, and that it leaves
no product out.  `Spells` says both of a phrase that may stand anywhere, `SpellsWhole` of a whole
text or of what stands between brackets; only there a sign may come first.

Both are closed under the steps of a printer: atoms, brackets, operators between phrases, and signs
in front of whole texts.  A whole text is read as the expression that it spells (`parse?_eq`).
-/

namespace FormulaCalc

open Validity ImplicitProduct

variable {table : VarTable} {w : List Char} {e : Expr}

/-- Tails of equations can be put behind each other. -/
theorem starred_tail_append
    {part : Part} {afterNumeral : Bool} {rest behind rest' behind' : List Char}
    (h : Starred table part rest behind)
    (hpart : part = .tail afterNumeral)
    (h' : ∀ numeral, Starred table (.tail numeral) rest' behind') :
    Starred table (.tail afterNumeral) (rest ++ rest') (behind ++ behind') := by
  induction h generalizing afterNumeral with
  | nothing =>
      exact h' _
  | @operator op _ _ w rest out behind hw _ _ ih =>
      have htail : Starred table (.tail afterNumeral) (op.symbol :: w ++ (rest ++ rest'))
          (op.symbol :: out ++ (behind ++ behind')) :=
        .operator hw (ih rfl)
      rw [List.append_assoc, List.append_assoc]
      exact htail
  | product hnot hw _ _ ih =>
      obtain rfl := Part.tail.inj hpart
      rw [List.append_assoc, List.append_assoc]
      exact .product hnot hw (ih rfl)
  | _ =>
      cases hpart

/-- A text that may stand anywhere in an equation and leaves no product out. -/
def IsWritten (table : VarTable) (w : List Char) : Prop :=
  ∃ numeral u rest, w = u ++ rest ∧
    Starred table (.operand numeral) u u ∧ Starred table (.tail numeral) rest rest

namespace IsWritten

variable {u v : List Char}

theorem of_operand
    {numeral : Bool}
    (h : Starred table (.operand numeral) w w) :
    IsWritten table w := by
  exact ⟨numeral, w, [], (List.append_nil w).symm, h, .nothing⟩

theorem group
    (h : IsWritten table w) :
    Starred table .group w w := by
  obtain ⟨numeral, u, rest, rfl, hu, hrest⟩ := h
  exact .unsigned hu hrest

theorem bracketIf
    (h : IsWritten table w)
    (wanted : Bool) :
    IsWritten table (Expr.bracketIf wanted w) := by
  cases wanted with
  | false =>
      exact h
  | true =>
      exact of_operand (.bracketed h.group)

theorem operator
    (hu : IsWritten table u)
    (op : Operator)
    (hv : IsWritten table v) :
    IsWritten table (u ++ op.symbol :: v) := by
  obtain ⟨m, first, rest, rfl, hfirst, hrest⟩ := hu
  obtain ⟨n, second, rest', rfl, hsecond, hrest'⟩ := hv
  refine ⟨m, first, rest ++ op.symbol :: (second ++ rest'), List.append_assoc .., hfirst, ?_⟩
  exact starred_tail_append hrest rfl fun _ => .operator hsecond hrest'

/-- A text that leaves no product out is read as it stands. -/
theorem phrase_of_parse?
    (h : IsWritten table w)
    (he : Equation.parse? table w = some e) :
    Phrase table (some .sum) true w e := by
  obtain ⟨out, hout, hphrase⟩ := Equation.parse?_eq_some_iff.1 he
  rw [← insertStars_of_starred hout, insertStars_of_starred h.group] at hphrase
  exact hphrase

end IsWritten

/-- A whole text that is read as an expression and leaves no product out. -/
structure SpellsWhole (table : VarTable) (w : List Char) (e : Expr) : Prop where
  phrase : Phrase table (some .sum) true w e
  written : Starred table .group w w

/-- A phrase of a level that leaves no product out, wherever it stands. -/
structure Spells (table : VarTable) (level : Option Level) (w : List Char) (e : Expr) : Prop where
  phrase : Phrase table level false w e
  written : ∃ numeral u rest, w = u ++ rest ∧
    Starred table (.operand numeral) u u ∧ Starred table (.tail numeral) rest rest

theorem SpellsWhole.parse?_eq
    (h : SpellsWhole table w e) :
    Equation.parse? table w = some e := by
  exact Equation.parse?_eq_some_iff.2 ⟨w, h.written, h.phrase⟩

theorem SpellsWhole.isValid
    (h : SpellsWhole table w e) :
    isValid table w = true := by
  exact accepts_of_group h.written.wellFormed

theorem SpellsWhole.minusNumeral
    {n : List Char} {v : Binary64}
    (hn : IsNumeral n)
    (hread : Binary64.read? ('-' :: n) = some v) :
    SpellsWhole table ('-' :: n) (.number v) := by
  have hphrase : Phrase table none true ('-' :: n) (.number v) := .signedNumeral rfl hn hread
  have hgroup : Starred table .group ('-' :: n ++ []) ('-' :: n ++ []) :=
    .signed rfl (.numeral hn) .nothing
  rw [List.append_nil] at hgroup
  exact ⟨hphrase.loosen (tightness_le_four _), hgroup⟩

theorem SpellsWhole.minusLetter
    {c : Char} {slot : Nat}
    (h : table.slotOf? c = some slot) :
    SpellsWhole table ['-', c] (Expr.negation (.var slot c)) := by
  have hphrase : Phrase table none true ['-', c] (Expr.negation (.var slot c)) := .minusLetter h
  have hgroup : Starred table .group ('-' :: [c] ++ []) ('-' :: [c] ++ []) :=
    .signed rfl (.letter (contains_of_slotOf? h)) .nothing
  exact ⟨hphrase.loosen (tightness_le_four _), hgroup⟩

namespace Spells

variable {level : Option Level}

theorem of_operand
    {numeral : Bool}
    (hphrase : Phrase table level false w e)
    (hwritten : Starred table (.operand numeral) w w) :
    Spells table level w e := by
  exact ⟨hphrase, IsWritten.of_operand hwritten⟩

theorem numeral
    {n : List Char} {v : Binary64}
    (hn : IsNumeral n)
    (hread : Binary64.read? n = some v) :
    Spells table none n (.number v) := by
  exact of_operand (.numeral hn hread) (.atom (.numeral hn))

theorem letter
    {c : Char} {slot : Nat}
    (h : table.slotOf? c = some slot) :
    Spells table none [c] (.var slot c) := by
  exact of_operand (.letter h) (.atom (.letter (contains_of_slotOf? h)))

theorem bracketed
    (h : SpellsWhole table w e) :
    Spells table none ('(' :: w ++ [')']) e := by
  exact of_operand (.bracketed h.phrase) (.bracketed h.written)

theorem whole
    (h : Spells table level w e) :
    SpellsWhole table w e := by
  exact ⟨h.phrase.allowSign.loosen (tightness_sum_le level), IsWritten.group h.written⟩

theorem loosen
    {looser : Option Level}
    (h : Spells table level w e)
    (hle : tightness looser ≤ tightness level) :
    Spells table looser w e := by
  exact ⟨h.phrase.loosen hle, h.written⟩

/-- With brackets where it is asked for them, and where it must have them to be of a level. -/
theorem bracketIf
    {outer : Option Level} {wanted : Bool}
    (h : Spells table level w e)
    (hnot : wanted = false → tightness outer ≤ tightness level) :
    Spells table outer (Expr.bracketIf wanted w) e := by
  cases wanted with
  | false =>
      exact h.loosen (hnot rfl)
  | true =>
      exact (bracketed h.whole).loosen (tightness_le_four _)

end Spells

/-- Phrases around an operator are a phrase of its level. -/
theorem Spells.chain
    {op : Operator} {u v : List Char} {a b : Expr}
    (hu : Spells table op.level.operand u a)
    (hv : Spells table (some op.level) v b) :
    Spells table (some op.level) (u ++ op.symbol :: v) (.binary op a b) := by
  exact ⟨.chain hu.phrase (hv.phrase.allowSign_of_false _),
    IsWritten.operator hu.written op hv.written⟩

end FormulaCalc
