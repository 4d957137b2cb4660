import FormulaCalc.Proofs.KnownCharacters
import FormulaCalc.Text.Blank
/-!
# What stands next to what in a valid equation

The automaton of `Validity` accepts the words of the grammar `WellFormed` and no others
(`isValid_iff_wellFormed`).  Some properties of these words concern neighbouring characters alone:
no group is empty, no sign follows an operator, no sign stands in front of a bracket.  They are read
off a second, smaller automaton, which forgets the depth and cuts nothing into tokens: its modes say
what the character before was.
-/

namespace FormulaCalc

namespace Validity

/-- What stands before a place in an equation; a sign is not an operator here. -/
inductive Mode where
  | opening
  | sign
  | operator
  | operand

/-- The mode behind one more character, if the character may stand there. -/
def Mode.follow (mode : Mode) (c : Char) : Option Mode :=
  match (Token.symbol? c).map Prod.fst, mode with
  | none, _ => some .operand
  | some .opening, .sign => none
  | some .opening, _ => some .opening
  | some .closing, .operand => some .operand
  | some .additive, .opening => some .sign
  | some .additive, .operand
  | some .multiplicative, .operand
  | some .power, .operand => some .operator
  | _, _ => none

/-- The mode behind a text. -/
def Mode.along (mode : Mode) (text : List Char) : Option Mode :=
  text.foldlM Mode.follow mode

/-- The modes in which a part of an equation may start. -/
def Part.StartsIn : Part → Mode → Prop
  | .group, mode => mode = .opening
  | .operand _, mode => mode ≠ .sign
  | .tail _, mode => mode = .operand

namespace Mode

theorem along_append
    (mode : Mode) (u v : List Char) :
    mode.along (u ++ v) = (mode.along u).bind fun behind => behind.along v := by
  exact List.foldlM_append

theorem along_cons
    (mode : Mode) (c : Char) (text : List Char) :
    mode.along (c :: text) = (mode.follow c).bind fun behind => behind.along text := by
  exact List.foldlM_cons

theorem follow_of_plain
    (mode : Mode) {c : Char}
    (h : Token.symbol? c = none) :
    mode.follow c = some .operand := by
  simp [follow, h]

theorem along_of_plain
    (mode : Mode) {w : List Char}
    (hne : w ≠ [])
    (h : ∀ c ∈ w, Token.symbol? c = none) :
    mode.along w = some .operand := by
  induction w generalizing mode with
  | nil =>
      exact absurd rfl hne
  | cons c rest ih =>
      rw [along_cons, follow_of_plain mode (h c List.mem_cons_self), Option.bind_some]
      by_cases hrest : rest = []
      · rw [hrest]
        rfl
      · exact ih .operand hrest fun d hd => h d (List.mem_cons_of_mem c hd)

/-- Any two neighbours are followed one behind the other. -/
theorem exists_follow_of_along
    {mode last : Mode} {before behind : List Char} {c d : Char}
    (h : mode.along (before ++ c :: d :: behind) = some last) :
    ∃ mode₀ mode₁ mode₂,
      mode.along before = some mode₀ ∧ mode₀.follow c = some mode₁ ∧
        mode₁.follow d = some mode₂ := by
  rw [along_append, Option.bind_eq_some_iff] at h
  obtain ⟨mode₀, h₀, h⟩ := h
  rw [along_cons, Option.bind_eq_some_iff] at h
  obtain ⟨mode₁, h₁, h⟩ := h
  rw [along_cons, Option.bind_eq_some_iff] at h
  obtain ⟨mode₂, h₂, -⟩ := h
  exact ⟨mode₀, mode₁, mode₂, h₀, h₁, h₂⟩

theorem follow_opening
    {mode mode' : Mode}
    (h : mode.follow '(' = some mode') :
    mode' = .opening := by
  cases mode <;> cases h <;> rfl

theorem follow_sign
    {mode mode' : Mode} {sign : Char}
    (hsign : Token.isSign sign)
    (h : mode.follow sign = some mode') :
    mode = .opening ∧ mode' = .sign ∨ mode = .operand ∧ mode' = .operator := by
  rcases isSign_iff.1 hsign with rfl | rfl <;>
  · cases mode <;> cases h
    · exact .inl ⟨rfl, rfl⟩
    · exact .inr ⟨rfl, rfl⟩

theorem follow_operator
    {mode mode' : Mode} {op : Operator}
    (h : mode.follow op.symbol = some mode') :
    mode' = .sign ∨ mode' = .operator := by
  cases op <;> cases mode <;> cases h <;> first | exact .inl rfl | exact .inr rfl

end Mode

section Neighbours

variable {table : VarTable} {text : List Char}

/-- **Along any part of an equation every character may stand where it does.** -/
theorem along_of_wellFormed
    {part : Part} {w : List Char}
    (h : WellFormed table part w)
    {mode : Mode}
    (hmode : part.StartsIn mode) :
    mode.along w = some .operand := by
  induction h generalizing mode with
  | atom hatom =>
      exact mode.along_of_plain hatom.ne_nil hatom.plain
  | @bracketed w _ ih =>
      have hfollow : mode.follow '(' = some .opening := by
        cases mode <;> first | rfl | exact absurd rfl hmode
      rw [List.cons_append, Mode.along_cons, hfollow, Option.bind_some, Mode.along_append,
        ih rfl]
      rfl
  | @signed sign numeral w rest hsign hatom _ ih =>
      obtain rfl : mode = .opening := hmode
      have hfollow : Mode.opening.follow sign = some .sign := by
        rcases isSign_iff.1 hsign with rfl | rfl <;> rfl
      rw [List.cons_append, Mode.along_cons, hfollow, Option.bind_some, Mode.along_append,
        Mode.along_of_plain .sign hatom.ne_nil hatom.plain]
      exact ih rfl
  | @unsigned numeral _ _ _ _ ihw ih =>
      obtain rfl : mode = .opening := hmode
      have hstart : (Part.operand numeral).StartsIn .opening := by
        nofun
      rw [Mode.along_append, ihw hstart]
      exact ih rfl
  | nothing =>
      obtain rfl : mode = .operand := hmode
      rfl
  | @operator op _ numeral _ _ _ _ ihw ih =>
      obtain rfl : mode = .operand := hmode
      have hstart : (Part.operand numeral).StartsIn .operator := by
        nofun
      have hfollow : Mode.operand.follow op.symbol = some .operator := by
        cases op <;> rfl
      rw [List.cons_append, Mode.along_cons, hfollow, Option.bind_some, Mode.along_append,
        ihw hstart]
      exact ih rfl
  | @product _ numeral _ _ _ _ _ ihw ih =>
      obtain rfl : mode = .operand := hmode
      have hstart : (Part.operand numeral).StartsIn .operand := by
        nofun
      rw [Mode.along_append, ihw hstart]
      exact ih rfl

theorem no_empty_group
    (h : WellFormed table .group text) :
    ¬ ['(', ')'] <:+: text := by
  rintro ⟨before, behind, rfl⟩
  have halong := along_of_wellFormed h rfl
  rw [List.append_assoc] at halong
  obtain ⟨_, mode, _, -, hopening, hclosing⟩ := Mode.exists_follow_of_along halong
  obtain rfl := Mode.follow_opening hopening
  cases hclosing

theorem no_sign_after_operator
    {op : Operator} {sign : Char}
    (h : WellFormed table .group text)
    (hsign : Token.isSign sign) :
    ¬ [op.symbol, sign] <:+: text := by
  rintro ⟨before, behind, rfl⟩
  have halong := along_of_wellFormed h rfl
  rw [List.append_assoc] at halong
  obtain ⟨_, mode, _, -, hop, hfollow⟩ := Mode.exists_follow_of_along halong
  rcases Mode.follow_operator hop with rfl | rfl <;>
  · rcases Mode.follow_sign hsign hfollow with ⟨hmode, -⟩ | ⟨hmode, -⟩ <;> cases hmode

/-- Where a group starts, a sign is not followed by a bracket. -/
theorem no_sign_before_opening
    {before behind : List Char} {sign : Char}
    (h : WellFormed table .group (before ++ sign :: '(' :: behind))
    (hsign : Token.isSign sign) :
    Mode.opening.along before ≠ some .opening := by
  intro hbefore
  obtain ⟨mode₀, mode₁, _, hmode, hfollow, hopening⟩ :=
    Mode.exists_follow_of_along (along_of_wellFormed h rfl)
  obtain rfl := Option.some.inj (hbefore.symm.trans hmode)
  rcases Mode.follow_sign hsign hfollow with ⟨-, rfl⟩ | ⟨hmode, -⟩
  · cases hopening
  · cases hmode

theorem along_behind_opening
    {before behind : List Char}
    (h : WellFormed table .group (before ++ '(' :: behind)) :
    Mode.opening.along (before ++ ['(']) = some .opening := by
  have halong := along_of_wellFormed h rfl
  rw [Mode.along_append, Option.bind_eq_some_iff] at halong ⊢
  obtain ⟨mode, hmode, halong⟩ := halong
  rw [Mode.along_cons, Option.bind_eq_some_iff] at halong
  obtain ⟨mode', hfollow, -⟩ := halong
  obtain rfl := Mode.follow_opening hfollow
  exact ⟨mode, hmode, by rw [Mode.along_cons, hfollow]; rfl⟩

theorem no_sign_before_group_at_start
    {sign : Char}
    (h : WellFormed table .group text)
    (hsign : Token.isSign sign) :
    ¬ [sign, '('] <+: text := by
  rintro ⟨behind, rfl⟩
  have h' : WellFormed table .group ([] ++ sign :: '(' :: behind) := h
  exact no_sign_before_opening h' hsign rfl

theorem no_sign_before_group_in_group
    {sign : Char}
    (h : WellFormed table .group text)
    (hsign : Token.isSign sign) :
    ¬ ['(', sign, '('] <:+: text := by
  rintro ⟨before, behind, rfl⟩
  have hassoc : before ++ ['(', sign, '('] ++ behind =
      before ++ ['('] ++ sign :: '(' :: behind := by
    simp
  have hopening := along_behind_opening (by simpa using h)
  rw [hassoc] at h
  exact no_sign_before_opening h hsign hopening

end Neighbours

section Blanks

variable {table : VarTable}

theorem isBlank_eq_false_of_isAlpha
    {c : Char}
    (h : c.isAlpha) :
    isBlank c = false := by
  have hrange := toNat_of_isAlpha h
  simp only [isBlank, Bool.or_eq_false_iff, Bool.and_eq_false_iff, decide_eq_false_iff_not,
    beq_eq_false_iff_ne]
  omega

theorem isBlank_eq_false_of_wellFormed
    {part : Part} {w : List Char}
    (h : WellFormed table part w) :
    ∀ c ∈ w, isBlank c = false := by
  have hcommon : (commonChars.all fun c => !isBlank c) = true := by
    decide
  intro c hc
  rcases mem_commonChars_or_contains (isKnown_of_wellFormed h c hc) with hmem | hletter
  · simpa using List.all_eq_true.1 hcommon c hmem
  · exact isBlank_eq_false_of_isAlpha (VarTable.isAlpha_of_contains hletter)

end Blanks

section Decision

theorem ne_nil_of_group
    {table : VarTable} {text : List Char}
    (h : WellFormed table .group text) :
    text ≠ [] := by
  rintro rfl
  have halong := along_of_wellFormed h rfl
  cases halong

theorem isValid_eq_accepts
    (table : VarTable) (text : List Char) :
    isValid table text = accepts table .start 0 text := by
  rfl

/--
A text is valid exactly if it is derived from the grammar.  A valid text is never empty; it has no
blanks and no empty groups in it, no sign behind an operator, and no sign in front of a bracket at
its start or at the start of a group.
-/
theorem isValid_iff_wellFormed
    (table : VarTable) (text : List Char) :
    (isValid table text = true ↔ WellFormed table .group text) ∧
      (isValid table text = true →
        text ≠ [] ∧
          (∀ c ∈ text, isBlank c = false) ∧
          ¬ ['(', ')'] <:+: text ∧
          ∀ sign, Token.isSign sign →
            (∀ op : Operator, ¬ [op.symbol, sign] <:+: text) ∧
              ¬ [sign, '('] <+: text ∧
              ¬ ['(', sign, '('] <:+: text) := by
  rw [isValid_eq_accepts]
  constructor
  · constructor
    · exact group_of_accepts
    · exact accepts_of_group
  · intro haccepts
    have h := group_of_accepts haccepts
    refine ⟨ne_nil_of_group h, isBlank_eq_false_of_wellFormed h, no_empty_group h, ?_⟩
    intro sign hsign
    refine ⟨fun op => no_sign_after_operator h hsign, ?_, ?_⟩
    · exact no_sign_before_group_at_start h hsign
    · exact no_sign_before_group_in_group h hsign

end Decision

end Validity

end FormulaCalc
