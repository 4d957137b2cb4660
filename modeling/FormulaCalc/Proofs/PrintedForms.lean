import FormulaCalc.Proofs.CompactRoundTrip
import FormulaCalc.Proofs.KnownCharacters
/-!
# Which printed forms can be read

The expression of a text prints to a text that can be read again, unless one of its literals is too
large for a double.  Such a literal has the value infinity and is printed as the word `inf`, which
can be read only where its three letters are letters of the table, as a product of variables
(`parse_printed_iff`).

Here only the validity of a printed form matters, not what it is read as.  So brackets count only
where a sign needs them: a text that may stand anywhere in an equation (`IsChain`) stays one when it
is put between brackets or beside an operator.
-/

namespace FormulaCalc

open Validity ImplicitProduct

variable {table : VarTable}

namespace Validity

/-- A text that may stand anywhere in an equation: an operand with a tail. -/
def IsChain (table : VarTable) (w : List Char) : Prop :=
  ∃ numeral u rest, w = u ++ rest ∧
    WellFormed table (.operand numeral) u ∧ WellFormed table (.tail numeral) rest

theorem IsChain.of_operand
    {numeral : Bool} {w : List Char}
    (h : WellFormed table (.operand numeral) w) :
    IsChain table w := by
  exact ⟨numeral, w, [], (List.append_nil w).symm, h, .nothing⟩

theorem IsChain.group
    {w : List Char}
    (h : IsChain table w) :
    WellFormed table .group w := by
  obtain ⟨numeral, u, rest, rfl, hu, hrest⟩ := h
  exact .unsigned hu hrest

theorem IsChain.bracketed
    {w : List Char}
    (h : WellFormed table .group w) :
    IsChain table (Expr.bracketIf true w) := by
  exact .of_operand (.bracketed h)

theorem IsChain.bracketIf
    {w : List Char}
    (h : IsChain table w)
    (wanted : Bool) :
    IsChain table (Expr.bracketIf wanted w) := by
  cases wanted with
  | false =>
      exact h
  | true =>
      exact .bracketed h.group

/-- An operator stands between any two chains. -/
theorem IsChain.operator
    {u v : List Char}
    (hu : IsChain table u)
    (op : Operator)
    (hv : IsChain table v) :
    IsChain table (u ++ op.symbol :: v) := by
  obtain ⟨m, first, rest, rfl, hfirst, hrest⟩ := hu
  obtain ⟨n, second, rest', rfl, hsecond, hrest'⟩ := hv
  -- tails are put together by way of their derivations with written products
  obtain ⟨_, hout⟩ := exists_starred hrest
  obtain ⟨_, hout'⟩ := exists_starred hsecond
  obtain ⟨_, hbehind⟩ := exists_starred hrest'
  have hoperator (afterNumeral : Bool) :=
    @Starred.operator table op afterNumeral _ _ _ _ _ hout' hbehind
  have htail := starred_tail_append hout rfl hoperator
  exact ⟨m, first, rest ++ op.symbol :: (second ++ rest'), List.append_assoc .., hfirst,
    htail.wellFormed⟩

/-- A text that may stand anywhere, and behind a sign at the start of a group. -/
structure IsSignable (table : VarTable) (w : List Char) : Prop where
  chain : IsChain table w
  signed : WellFormed table .group ('-' :: w)

theorem IsSignable.of_atom_tail
    {numeral : Bool} {w rest : List Char}
    (h : Atom table numeral w)
    (hrest : WellFormed table (.tail numeral) rest) :
    IsSignable table (w ++ rest) := by
  exact ⟨⟨numeral, w, rest, rfl, .atom h, hrest⟩, .signed rfl h hrest⟩

theorem IsSignable.of_atom
    {numeral : Bool} {w : List Char}
    (h : Atom table numeral w) :
    IsSignable table w := by
  have hsignable : IsSignable table (w ++ []) := .of_atom_tail h .nothing
  rw [List.append_nil] at hsignable
  exact hsignable

theorem tail_of_letters
    {w : List Char}
    (h : ∀ c ∈ w, table.contains c) :
    WellFormed table (.tail false) w := by
  induction w with
  | nil =>
      exact .nothing
  | cons c w ih =>
      have hc := h c List.mem_cons_self
      have hrest := ih fun d hd => h d (List.mem_cons_of_mem c hd)
      have htail : WellFormed table (.tail false) ([c] ++ w) :=
        .product rfl (.atom (.letter hc)) hrest
      exact htail

/-- Letters of the table side by side are a product. -/
theorem IsSignable.of_letters
    {c : Char} {w : List Char}
    (h : ∀ d ∈ c :: w, table.contains d) :
    IsSignable table (c :: w) := by
  have hc : Atom table false [c] := .letter (h c List.mem_cons_self)
  have htail := tail_of_letters fun d hd => h d (List.mem_cons_of_mem c hd)
  exact IsSignable.of_atom_tail hc htail

end Validity

/-- How an infinite number is printed, apart from its sign. -/
def infinityWord : List Char := ['i', 'n', 'f']

namespace Expr

/-- Whether no number is NaN and all letters are in the table, as in what has been read. -/
def isReadOver (table : VarTable) : Expr → Bool
  | number value => !value.isNaN
  | var _ letter => table.contains letter
  | binary _ left right => left.isReadOver table && right.isReadOver table

section Reading

theorem isNaN_eq_false_of_read?
    {text : List Char} {v : Binary64}
    (h : Binary64.read? text = some v) :
    v.isNaN = false := by
  have hle (negative : Bool) (d : Decimal) :
      (Binary64.ofDecimal negative d).magnitude ≤ Binary64.infinityMagnitude := by
    rw [Binary64.ofDecimal, Binary64.ofRatio_magnitude, Binary64.nearestMagnitude]
    exact Nat.min_le_left _ _
  have hmagnitude : v.magnitude ≤ Binary64.infinityMagnitude := by
    unfold Binary64.read? at h
    split at h <;>
    · obtain ⟨d, -, rfl⟩ := Option.map_eq_some_iff.1 h
      exact hle _ d
  rw [Binary64.isNaN, decide_eq_false_iff_not]
  omega

/-- A text has no literal for NaN and no letters but those of the table. -/
theorem isReadOver_of_phrase
    {level : Option Level} {signed : Bool} {w : List Char} {e : Expr}
    (h : Phrase table level signed w e) :
    e.isReadOver table := by
  induction h with
  | numeral _ hread | signedNumeral _ _ hread =>
      rw [isReadOver, isNaN_eq_false_of_read? hread]
      rfl
  | letter hslot | plusLetter hslot =>
      exact contains_of_slotOf? hslot
  | minusLetter hslot =>
      exact Bool.and_eq_true_iff.2 ⟨rfl, contains_of_slotOf? hslot⟩
  | bracketed _ ih | operand _ ih =>
      exact ih
  | chain _ _ ihu ihv =>
      exact Bool.and_eq_true_iff.2 ⟨ihu, ihv⟩

end Reading

section Printing

/-- What has to hold of the numbers of an expression for its printed forms to be valid. -/
def IsLegible (table : VarTable) (e : Expr) : Prop :=
  e.hasFiniteNumbers ∨ ∀ c ∈ infinityWord, table.contains c

theorem isLegible_of_binary
    {op : Operator} {left right : Expr}
    (h : IsLegible table (binary op left right)) :
    IsLegible table left ∧ IsLegible table right := by
  rcases h with hfinite | hletters
  · obtain ⟨hl, hr⟩ := Bool.and_eq_true_iff.1 hfinite
    exact ⟨.inl hl, .inl hr⟩
  · exact ⟨.inr hletters, .inr hletters⟩

/-- A legible number is printed as an atom or a product of letters, behind its sign. -/
theorem exists_signable_of_number
    {v : Binary64}
    (hread : (number v).isReadOver table)
    (h : IsLegible table (number v)) :
    ∃ n, IsSignable table n ∧ v.render = if v.negative then '-' :: n else n := by
  cases hfinite : v.isFinite with
  | true =>
      obtain ⟨n, hn, hrender⟩ := exists_numeral_of_isFinite hfinite
      exact ⟨n, .of_atom (.numeral hn), hrender⟩
  | false =>
      have hletters : ∀ c ∈ infinityWord, table.contains c := by
        refine h.resolve_left fun hnumber => ?_
        rw [hasFiniteNumbers, hfinite] at hnumber
        cases hnumber
      have hnan : v.isNaN = false := by
        simpa [isReadOver] using hread
      refine ⟨infinityWord, .of_letters hletters, ?_⟩
      rw [Binary64.render, hnan, hfinite]
      rfl

theorem isChain_display
    {e : Expr}
    (hread : e.isReadOver table)
    (h : IsLegible table e) :
    IsChain table e.display := by
  induction e with
  | number v =>
      obtain ⟨n, hn, hrender⟩ := exists_signable_of_number hread h
      cases hsign : v.negative with
      | true =>
          rw [display_number_of_negative hsign hrender]
          exact .bracketed hn.signed
      | false =>
          rw [display_number_of_not_negative hsign hrender]
          exact hn.chain
  | var slot letter =>
      exact .of_operand (.atom (.letter hread))
  | binary op left right ihl ihr =>
      obtain ⟨hreadl, hreadr⟩ := Bool.and_eq_true_iff.1 hread
      obtain ⟨hl, hr⟩ := isLegible_of_binary h
      exact ((ihl hreadl hl).operator op (ihr hreadr hr)).bracketIf true

/-- What a sign is put in front of in compact forms. -/
theorem isSignable_of_isUnsignedAtom
    {e : Expr}
    (hread : e.isReadOver table)
    (h : IsLegible table e)
    (hatom : e.isUnsignedAtom) :
    IsSignable table (e.compactAs false) := by
  cases e with
  | number v =>
      obtain ⟨n, hn, hrender⟩ := exists_signable_of_number hread h
      have hsign : v.negative = false := by
        simpa [isUnsignedAtom] using hatom
      rw [compactAs_unsignedNumber hsign, hrender, hsign]
      exact hn
  | var slot letter =>
      exact .of_atom (.letter hread)
  | binary =>
      cases hatom

/-- The compact form of an operand is a chain; a whole text may start with a sign. -/
theorem isChain_compactAs
    {e : Expr}
    (hread : e.isReadOver table)
    (h : IsLegible table e) :
    IsChain table (e.compactAs false) ∧ WellFormed table .group e.compact := by
  induction e with
  | number v =>
      obtain ⟨n, hn, hrender⟩ := exists_signable_of_number hread h
      rw [compact, compactAs, compactAs, hrender]
      cases v.negative with
      | true =>
          exact ⟨.bracketed hn.signed, hn.signed⟩
      | false =>
          exact ⟨hn.chain, hn.chain.group⟩
  | var slot letter =>
      have hchain : IsChain table [letter] := .of_operand (.atom (.letter hread))
      exact ⟨hchain, hchain.group⟩
  | binary op left right ihl ihr =>
      obtain ⟨hreadl, hreadr⟩ := Bool.and_eq_true_iff.1 hread
      obtain ⟨hl, hr⟩ := isLegible_of_binary h
      obtain ⟨hchain, -⟩ := ihl hreadl hl
      obtain ⟨hchain', -⟩ := ihr hreadr hr
      by_cases hneg : (binary op left right).asNegation?.isSome
      · rw [compact, compactAs_of_negation hneg, compactAs_of_negation hneg]
        cases hatom : right.isUnsignedAtom with
        | true =>
            have hsigned := (isSignable_of_isUnsignedAtom hreadr hr hatom).signed
            exact ⟨.bracketed hsigned, hsigned⟩
        | false =>
            have hzero : IsChain table ['0'] := .of_operand (.atom (.numeral .zero))
            have hdifference := hzero.operator .sub
              (hchain'.bracketIf (right.rank < Level.product.rank))
            exact ⟨.bracketed hdifference.group, hdifference.group⟩
      · rw [compact, compactAs_of_not_negation hneg, compactAs_of_not_negation hneg]
        have hbinary := (hchain.bracketIf (left.rank ≤ op.level.rank)).operator op
          (hchain'.bracketIf (right.rank < op.level.rank))
        exact ⟨hbinary, hbinary.group⟩

end Printing

section Infinity

theorem mem_bracketIf
    {c : Char} {text : List Char}
    (h : c ∈ text)
    (wanted : Bool) :
    c ∈ bracketIf wanted text := by
  cases wanted with
  | false =>
      exact h
  | true =>
      exact List.mem_cons_of_mem _ (List.mem_append_left _ h)

theorem mem_render_of_infinite
    {v : Binary64}
    (hnan : v.isNaN = false)
    (hfinite : v.isFinite = false) :
    ∀ c ∈ infinityWord, c ∈ v.render := by
  intro c hc
  rw [Binary64.render, hnan, hfinite]
  cases v.negative with
  | false =>
      exact hc
  | true =>
      exact List.mem_cons_of_mem _ hc

theorem mem_display_of_infinite
    {e : Expr}
    (hread : e.isReadOver table)
    (h : e.hasFiniteNumbers = false) :
    ∀ c ∈ infinityWord, c ∈ e.display := by
  intro c hc
  induction e with
  | number v =>
      have hnan : v.isNaN = false := by
        simpa [isReadOver] using hread
      exact mem_bracketIf (mem_render_of_infinite hnan h c hc) v.negative
  | var slot letter =>
      cases h
  | binary op left right ihl ihr =>
      obtain ⟨hreadl, hreadr⟩ := Bool.and_eq_true_iff.1 hread
      refine mem_bracketIf ?_ true
      rcases Bool.and_eq_false_iff.1 h with hl | hr
      · exact List.mem_append_left _ (ihl hreadl hl)
      · exact List.mem_append_right _ (List.mem_cons_of_mem _ (ihr hreadr hr))

/-- A compact form leaves out a zero at most. -/
theorem mem_compactAs_of_infinite
    {e : Expr}
    (hread : e.isReadOver table)
    (h : e.hasFiniteNumbers = false)
    (whole : Bool) :
    ∀ c ∈ infinityWord, c ∈ e.compactAs whole := by
  intro c hc
  induction e generalizing whole with
  | number v =>
      have hnan : v.isNaN = false := by
        simpa [isReadOver] using hread
      exact mem_bracketIf (mem_render_of_infinite hnan h c hc) _
  | var slot letter =>
      cases h
  | binary op left right ihl ihr =>
      obtain ⟨hreadl, hreadr⟩ := Bool.and_eq_true_iff.1 hread
      have hside := Bool.and_eq_false_iff.1 h
      by_cases hneg : (binary op left right).asNegation?.isSome
      · have hright : right.hasFiniteNumbers = false := by
          obtain ⟨-, z, rfl, hz⟩ := exists_zero_of_negation hneg
          refine hside.resolve_left fun hinfinite => ?_
          have hmagnitude : z.magnitude = 0 := of_decide_eq_true hz
          rw [hasFiniteNumbers, Binary64.isFinite, hmagnitude] at hinfinite
          cases hinfinite
        rw [compactAs_of_negation hneg]
        refine mem_bracketIf ?_ _
        split
        · exact List.mem_cons_of_mem _ (ihr hreadr hright false)
        · exact List.mem_cons_of_mem _
            (List.mem_cons_of_mem _ (mem_bracketIf (ihr hreadr hright false) _))
      · rw [compactAs_of_not_negation hneg]
        rcases hside with hl | hr
        · exact List.mem_append_left _ (mem_bracketIf (ihl hreadl hl false) _)
        · exact List.mem_append_right _
            (List.mem_cons_of_mem _ (mem_bracketIf (ihr hreadr hr false) _))

/-- The word for infinity is valid in a text only if its letters are in the table. -/
theorem contains_of_infinityWord
    {w : List Char}
    (hword : ∀ c ∈ infinityWord, c ∈ w)
    (h : WellFormed table .group w) :
    ∀ c ∈ infinityWord, table.contains c := by
  intro c hc
  have hcommon : ∀ d ∈ infinityWord, d ∉ commonChars := by
    simp [infinityWord, commonChars]
  have hknown := isKnown_of_wellFormed h c (hword c hc)
  exact (mem_commonChars_or_contains hknown).resolve_left (hcommon c hc)

/-- A form that shows every infinite number, and is valid for legible numbers, is valid for no
others. -/
theorem exists_parse?_iff_isLegible
    {e : Expr} {w : List Char}
    (hshown : e.hasFiniteNumbers = false → ∀ c ∈ infinityWord, c ∈ w)
    (hvalid : IsLegible table e → WellFormed table .group w) :
    (∃ e', Equation.parse? table w = some e') ↔ IsLegible table e := by
  rw [Equation.exists_parse?_iff]
  constructor
  · intro haccepts
    cases hfinite : e.hasFiniteNumbers with
    | true =>
        exact .inl hfinite
    | false =>
        exact .inr (contains_of_infinityWord (hshown hfinite) (group_of_accepts haccepts))
  · intro hlegible
    exact accepts_of_group (hvalid hlegible)

end Infinity

end Expr

namespace Equation

/--
The two printed forms of the expression of a text can be read again with the same table if all its
numbers are finite.  If a literal is too large for a double they can be read only with a table in
which `i`, `n` and `f` are letters.
-/
theorem parse_printed_iff
    (table : VarTable) (text : List Char) (e : Expr)
    (h : parse? table text = some e) :
    ((∃ e', parse? table e.display = some e') ↔
        e.hasFiniteNumbers ∨ ∀ c ∈ infinityWord, table.contains c) ∧
      ((∃ e', parse? table e.compact = some e') ↔
        e.hasFiniteNumbers ∨ ∀ c ∈ infinityWord, table.contains c) := by
  obtain ⟨out, -, hphrase⟩ := parse?_eq_some_iff.1 h
  have hread := Expr.isReadOver_of_phrase hphrase
  constructor
  · refine Expr.exists_parse?_iff_isLegible (Expr.mem_display_of_infinite hread) fun hlegible => ?_
    exact (Expr.isChain_display hread hlegible).group
  · refine Expr.exists_parse?_iff_isLegible (fun hinfinite => ?_) fun hlegible => ?_
    · exact Expr.mem_compactAs_of_infinite hread hinfinite true
    · exact (Expr.isChain_compactAs hread hlegible).2

section Overflow

/-- Positive infinity. -/
def infinity : Binary64 := ⟨false, Binary64.infinityMagnitude, by decide⟩

/-- A literal that is too large for a double. -/
def overflowingLiteral : List Char := List.replicate 309 '9'

theorem spells_overflowingLiteral
    (table : VarTable) :
    Spells table none overflowingLiteral (.number infinity) := by
  have hread : Binary64.read? overflowingLiteral = some infinity := by
    decide +kernel
  refine .numeral (.of_digits ?_ (by decide)) hread
  intro c hc
  rw [List.eq_of_mem_replicate hc]
  rfl

/-- A table in which the word for infinity is a product of three variables. -/
def wordTable : VarTable := ⟨[('f', 2), ('i', 0), ('n', 1)], by decide, by decide⟩

theorem parse_printed_overflowingPower :
    parse? wordTable (overflowingLiteral ++ ['^', 'f']) =
        some (.binary .pow (.number infinity) (.var 2 'f')) ∧
      (∃ e', parse? wordTable "(inf^f)".toList = some e') ∧
      ∃ e', parse? wordTable "inf^f".toList = some e' := by
  have hletter : Spells wordTable (some .power) ['f'] (.var 2 'f') :=
    (Spells.letter rfl).loosen (tightness_le_four _)
  have hpower := @Spells.chain wordTable .pow _ _ _ _ (spells_overflowingLiteral wordTable) hletter
  have hparse := hpower.whole.parse?_eq
  obtain ⟨hdisplay, hcompact⟩ := parse_printed_iff wordTable _ _ hparse
  have hletters : ∀ c ∈ infinityWord, wordTable.contains c :=
    List.all_eq_true.1 (by decide)
  exact ⟨hparse, hdisplay.2 (.inr hletters), hcompact.2 (.inr hletters)⟩

/-- With the letters `x`, `y` and `z` alone, a literal that is too large prints to a text that
cannot be read. -/
theorem parse_printed_overflowingLiteral_ne :
    parse? .initial overflowingLiteral = some (.number infinity) ∧
      (Expr.number infinity).display = "inf".toList ∧
      (Expr.number infinity).compact = "inf".toList ∧
      parse? .initial "inf".toList = none := by
  refine ⟨(spells_overflowingLiteral .initial).whole.parse?_eq, ?_, ?_, ?_⟩ <;> decide +kernel

end Overflow

end Equation

end FormulaCalc
