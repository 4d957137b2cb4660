import FormulaCalc.Proofs.LetterHistory
/-!
# What a text sees of a table

Two tables that have the same letters among the characters of a text read this text in the same way:
into the same tokens, with the same verdict, the same written products, the same events and the same
errors.  The expressions differ in the slots of their variables alone, which are those of the
letters in each table, and print alike (`readsAlike_of_same_letters`).

A table is looked at in two places, by the scanner when it meets a letter and by the builder when it
reads a leaf.  What the scanner needs is whether the letter is there, and this is the same for both
tables; what the builder takes from the table besides is the slot, and it only stores it.
-/

namespace FormulaCalc

/-- Whether two tables have the same letters among the characters of a text. -/
def VarTable.AgreeOn (text : List Char) (table table' : VarTable) : Prop :=
  ∀ c ∈ text, table.contains c = table'.contains c

/-- The expression with each variable in the slot that a table gives to its letter. -/
def Expr.reslot (table : VarTable) : Expr → Expr
  | number value => number value
  | var slot letter => var ((table.slotOf? letter).getD slot) letter
  | binary op left right => binary op (left.reslot table) (right.reslot table)

variable {table table' : VarTable} {text : List Char}

namespace VarTable

theorem AgreeOn.mono
    {part : List Char}
    (h : AgreeOn text table table')
    (hpart : part ⊆ text) :
    AgreeOn part table table' := by
  exact fun c hc => h c (hpart hc)

/--
Whether a change cannot be seen from a text: it takes out no character of the text, and adds none
that was not a letter of the table before.
-/
def Change.IsHidden (table : VarTable) (text : List Char) : Change → Prop
  | .register letter _ => letter ∈ text → table.contains letter
  | .forget letter => letter ∉ text

/-- One hidden change of a table that agrees with the first one. -/
theorem AgreeOn.after
    {change : Change}
    (h : AgreeOn text table table')
    (hchange : change.IsHidden table text) :
    AgreeOn text table (table'.after change) := by
  intro c hc
  have hagree := h c hc
  rw [Bool.eq_iff_iff]
  cases change with
  | register letter slot =>
      rw [contains_after_register, ← hagree]
      constructor
      · exact .inr
      · rintro (⟨rfl, -⟩ | hcontains)
        · exact hchange hc
        · exact hcontains
  | forget letter =>
      rw [contains_after_forget, ← hagree]
      constructor
      · refine fun hcontains => ⟨?_, hcontains⟩
        rintro rfl
        exact hchange hc
      · exact And.right

/-- A run of hidden changes leaves a table that agrees with the first one. -/
theorem AgreeOn.afterAll
    {changes : List Change}
    (h : AgreeOn text table table')
    (hchanges : ∀ change ∈ changes, change.IsHidden table text) :
    AgreeOn text table (table'.afterAll changes) := by
  induction changes generalizing table' with
  | nil =>
      exact h
  | cons change changes ih =>
      obtain ⟨hchange, hchanges⟩ := List.forall_mem_cons.1 hchanges
      exact ih (h.after hchange) hchanges

end VarTable

section Tokens

open Validity ImplicitProduct

variable {atGroupStart : Bool}

theorem atom?_congr
    (h : VarTable.AgreeOn text table table') :
    Token.atom? table text = Token.atom? table' text := by
  cases text with
  | nil =>
      rfl
  | cons c rest =>
      rw [Token.atom?, Token.atom?, h c List.mem_cons_self]

theorem scan?_congr
    (h : VarTable.AgreeOn text table table') :
    Token.scan? table atGroupStart text = Token.scan? table' atGroupStart text := by
  cases text with
  | nil =>
      rfl
  | cons c rest =>
      rw [Token.scan?, Token.scan?, atom?_congr h,
        atom?_congr (h.mono (List.subset_cons_self c rest))]

theorem VarTable.AgreeOn.rest
    {token : Token} {rest : List Char}
    (h : VarTable.AgreeOn text table table')
    (hscan : Token.scan? table atGroupStart text = some (token, rest)) :
    VarTable.AgreeOn rest table table' := by
  obtain ⟨rfl, -⟩ := Token.scan?_eq_some hscan
  exact h.mono (List.subset_append_right _ _)

theorem walk_congr
    (h : VarTable.AgreeOn text table table') :
    Token.walk table atGroupStart text = Token.walk table' atGroupStart text := by
  fun_induction Token.walk table atGroupStart text with
  | case1 atGroupStart text hscan =>
      rw [scan?_congr h] at hscan
      rw [walk_of_none hscan]
  | case2 atGroupStart text token rest hscan next ih =>
      have hrest := h.rest hscan
      rw [scan?_congr h] at hscan
      rw [walk_of_scan? hscan, ← ih hrest]

theorem accepts_congr_table
    {text : List Char} (state : State) (depth : Nat)
    (h : VarTable.AgreeOn text table table') :
    accepts table state depth text = accepts table' state depth text := by
  rw [accepts_eq, accepts_eq, ← scan?_congr h]
  cases hscan : Token.scan? table (state = .start) text with
  | none =>
      rfl
  | some found =>
      obtain ⟨token, rest⟩ := found
      have hlength := Token.length_rest_lt hscan
      have hrest (behind : Nat) :=
        accepts_congr_table (.after (some token.kind)) behind (h.rest hscan)
      simp only [hrest]
termination_by text.length

theorem isValid_congr
    (h : VarTable.AgreeOn text table table') :
    isValid table text = isValid table' text := by
  exact accepts_congr_table .start 0 h

theorem listing_congr
    (h : VarTable.AgreeOn text table table') :
    Token.listing table text = Token.listing table' text := by
  rw [Token.listing, Token.listing, Token.pieces, Token.pieces, Token.tokens, Token.tokens,
    Token.unread, Token.unread, walk_congr h]

theorem insertStars_congr
    (h : VarTable.AgreeOn text table table') :
    insertStars table text = insertStars table' text := by
  simp only [insertStars, Token.tokens, Token.unread, walk_congr h]

theorem starPositions_congr
    (h : VarTable.AgreeOn text table table') :
    starPositions table text = starPositions table' text := by
  simp only [starPositions, Token.tokens, walk_congr h]

end Tokens

section Building

open BracketedText

theorem subset_of_splitSign
    {negative : Bool} {body : List Char}
    (h : Expr.splitSign text = (negative, body)) :
    body ⊆ text := by
  unfold Expr.splitSign at h
  split at h <;> obtain ⟨-, rfl⟩ := Prod.mk.inj h
  · exact List.subset_cons_self _ _
  · exact List.subset_cons_self _ _
  · exact List.Subset.refl _

theorem numeralLeaf_reslot
    (table : VarTable) (text body : List Char) :
    Expr.numeralLeaf text body = (Expr.numeralLeaf text body).map (Expr.reslot table) := by
  unfold Expr.numeralLeaf
  split
  · rfl
  · split <;> rfl

theorem leaf_congr
    (h : VarTable.AgreeOn text table table') :
    Expr.leaf table' text = (Expr.leaf table text).map (Expr.reslot table') := by
  rw [Expr.leaf, Expr.leaf]
  split
  · next negative c hsplit =>
      have hc := h c (subset_of_splitSign hsplit List.mem_cons_self)
      split
      · rw [VarTable.contains, VarTable.contains] at hc
        cases hslot : table.slotOf? c with
        | none =>
            rw [hslot] at hc
            have hnone : table'.slotOf? c = none := by
              simpa using hc.symm
            rw [hnone]
            rfl
        | some slot =>
            rw [hslot] at hc
            obtain ⟨slot', hslot'⟩ := Option.isSome_iff_exists.1 hc.symm
            rw [hslot']
            cases negative <;> simp [Except.map, Expr.reslot, Expr.negation, hslot']
      · exact numeralLeaf_reslot table' text _
  · exact numeralLeaf_reslot table' text _

theorem buildSlice_congr
    {t : BracketedText} (start stop : Nat)
    (h : VarTable.AgreeOn t.chars.toList table table') :
    Expr.buildSlice table' t start stop =
      (Expr.buildSlice table t start stop).map (Expr.reslot table') := by
  rw [Expr.buildSlice_eq_buildBare, Expr.buildSlice_eq_buildBare, Expr.buildBare, Expr.buildBare]
  have hinner := t.stripOuter_bounds start stop
  split
  · rfl
  · split
    · refine leaf_congr (h.mono fun c hc => ?_)
      rw [slice, Array.toList_extract] at hc
      exact List.mem_of_mem_drop (List.mem_of_mem_take hc)
    · next op position hprincipal =>
        have hbounds := principal?_bounds hprincipal
        rw [buildSlice_congr _ position h, buildSlice_congr (position + 1) _ h]
        cases Expr.buildSlice table t (t.stripOuter start stop).1 position with
        | error error =>
            rfl
        | ok left =>
            cases Expr.buildSlice table t (position + 1) (t.stripOuter start stop).2 <;> rfl
termination_by stop - start

/-- The builder makes the same expression up to slots, or fails with the same error. -/
theorem build_congr
    (h : VarTable.AgreeOn text table table') :
    Expr.build table' text = (Expr.build table text).map (Expr.reslot table') := by
  exact buildSlice_congr 0 text.length (by simpa [ofText] using h)

end Building

section Products

open ImplicitProduct

theorem mem_writeTokens
    {before : Option Token.Kind} {tokens : List Token} {c : Char}
    (h : c ∈ writeTokens before tokens) :
    c = '*' ∨ c ∈ tokens.flatMap Token.text := by
  induction tokens generalizing before with
  | nil =>
      cases h
  | cons token tokens ih =>
      rw [List.flatMap_cons, List.mem_append]
      rw [writeTokens, List.mem_append, List.mem_append] at h
      rcases h with (hstar | htoken) | hrest
      · split at hstar
        · exact .inl (List.mem_singleton.1 hstar)
        · cases hstar
      · exact .inr (.inl htoken)
      · exact (ih hrest).imp_right .inr

/-- Writing products adds stars and no other character. -/
theorem mem_insertStars
    {c : Char}
    (h : c ∈ insertStars table text) :
    c = '*' ∨ c ∈ text := by
  rw [← Token.flatMap_tokens table text, List.mem_append]
  rcases List.mem_append.1 h with hwritten | hunread
  · exact (mem_writeTokens hwritten).imp_right .inl
  · exact .inr (.inr hunread)

theorem contains_star
    (table : VarTable) :
    table.contains '*' = false := by
  rw [Bool.eq_false_iff]
  intro hcontains
  cases VarTable.isAlpha_of_contains hcontains

theorem VarTable.AgreeOn.insertStars
    (h : VarTable.AgreeOn text table table') :
    VarTable.AgreeOn (insertStars table text) table table' := by
  intro c hc
  rcases mem_insertStars hc with rfl | hc
  · rw [contains_star, contains_star]
  · exact h c hc

end Products

namespace Expr

@[simp] theorem isZero_reslot
    (table : VarTable) (e : Expr) :
    (e.reslot table).isZero = e.isZero := by
  cases e <;> rfl

@[simp] theorem isUnsignedAtom_reslot
    (table : VarTable) (e : Expr) :
    (e.reslot table).isUnsignedAtom = e.isUnsignedAtom := by
  cases e <;> rfl

@[simp] theorem asNegation?_reslot
    (table : VarTable) (e : Expr) :
    (e.reslot table).asNegation? = e.asNegation?.map (reslot table) := by
  cases e with
  | number | var =>
      rfl
  | binary op left right =>
      cases op with
      | sub =>
          rw [reslot, asNegation?, asNegation?, isZero_reslot]
          split <;> rfl
      | add | mul | div | pow =>
          rfl

@[simp] theorem rank_reslot
    (table : VarTable) (e : Expr) :
    (e.reslot table).rank = e.rank := by
  rw [rank.eq_def, rank.eq_def e, asNegation?_reslot, Option.isSome_map]
  cases e <;> rfl

@[simp] theorem display_reslot
    (table : VarTable) (e : Expr) :
    (e.reslot table).display = e.display := by
  induction e with
  | number | var =>
      rfl
  | binary op left right ihl ihr =>
      rw [reslot, display, display, ihl, ihr]

theorem compactAs_reslot
    (table : VarTable) (whole : Bool) (e : Expr) :
    (e.reslot table).compactAs whole = e.compactAs whole := by
  induction e generalizing whole with
  | number | var =>
      rfl
  | binary op left right ihl ihr =>
      have hnegation := asNegation?_reslot table (.binary op left right)
      rw [reslot] at hnegation
      rw [reslot, compactAs, compactAs, hnegation, Option.isSome_map, ihl, ihr,
        isUnsignedAtom_reslot, rank_reslot, rank_reslot]

@[simp] theorem compact_reslot
    (table : VarTable) (e : Expr) :
    (e.reslot table).compact = e.compact := by
  exact compactAs_reslot table true e

end Expr

namespace Equation

open Validity ImplicitProduct

/-- Whether two tables read a text in the same way, up to the slots they give to its letters. -/
structure ReadsAlike (table table' : VarTable) (text : List Char) : Prop where
  isValid : isValid table' text = isValid table text
  listing : Token.listing table' text = Token.listing table text
  insertStars : insertStars table' text = insertStars table text
  starPositions : starPositions table' text = starPositions table text
  build : Expr.build table' text = (Expr.build table text).map (Expr.reslot table')
  parse? : parse? table' text = (parse? table text).map (Expr.reslot table')
  journal : (parse table' text).2 = (parse table text).2
  explain : explain table' text =
    (explain table text).map fun found => (found.1.reslot table', found.2)
  /-- Each variable of an expression stands for the slot of its letter in the own table. -/
  slots : ∀ own ∈ [table, table'], ∀ e, Equation.parse? own text = some e →
    ∀ found ∈ e.occurrences, own.slotOf? found.2 = some found.1
  display : (Equation.parse? table' text).map Expr.display =
    (Equation.parse? table text).map Expr.display
  compact : (Equation.parse? table' text).map Expr.compact =
    (Equation.parse? table text).map Expr.compact

theorem slotOf?_of_phrase
    {level : Option Level} {signed : Bool} {e : Expr}
    (h : Phrase table level signed text e) :
    ∀ found ∈ e.occurrences, table.slotOf? found.2 = some found.1 := by
  induction h with
  | numeral | signedNumeral =>
      intro found hfound
      cases hfound
  | letter hslot | plusLetter hslot | minusLetter hslot =>
      intro found hfound
      obtain rfl := List.mem_singleton.1 hfound
      exact hslot
  | bracketed _ ih | operand _ ih =>
      exact ih
  | chain _ _ ihu ihv =>
      intro found hfound
      exact (List.mem_append.1 hfound).elim (ihu found) (ihv found)

theorem parse_congr
    (h : VarTable.AgreeOn text table table') :
    parse table' text =
      ((parse table text).1.map (Expr.reslot table'), (parse table text).2) := by
  rw [parse, parse, ← isValid_congr h, ← starPositions_congr h, ← insertStars_congr h,
    build_congr h.insertStars]
  split
  · cases Expr.build table (insertStars table text) <;> rfl
  · rfl

theorem explain_congr
    (h : VarTable.AgreeOn text table table') :
    explain table' text =
      (explain table text).map fun found => (found.1.reslot table', found.2) := by
  simp only [explain, ← isValid_congr h, ← listing_congr h, ← insertStars_congr h,
    build_congr h.insertStars]
  split
  · rfl
  · split
    · cases Expr.build table (insertStars table text) with
      | error error =>
          rfl
      | ok e =>
          simp [Except.map]
    · rfl

theorem readsAlike_of_agreeOn
    (h : VarTable.AgreeOn text table table') :
    ReadsAlike table table' text := by
  have hparse := congrArg Prod.fst (parse_congr h)
  have hjournal := congrArg Prod.snd (parse_congr h)
  refine ⟨(isValid_congr h).symm, (listing_congr h).symm, (insertStars_congr h).symm,
    (starPositions_congr h).symm, build_congr h, hparse, hjournal, explain_congr h, ?_, ?_, ?_⟩
  · intro own _ e he
    obtain ⟨out, -, hphrase⟩ := parse?_eq_some_iff.1 he
    exact slotOf?_of_phrase hphrase
  · rw [parse?, hparse]
    simp [parse?, Function.comp_def]
  · rw [parse?, hparse]
    simp [parse?, Function.comp_def]

/--
Tables that have the same letters among the characters of a text read it alike.  So a run of changes
that forgets no character of the text and registers none anew, though it may move its letters to
other slots, is not seen from the text.
-/
theorem readsAlike_of_same_letters
    (table : VarTable) (text : List Char) :
    (∀ table', VarTable.AgreeOn text table table' → ReadsAlike table table' text) ∧
      ∀ changes, (∀ change ∈ changes, VarTable.Change.IsHidden table text change) →
        ReadsAlike table (table.afterAll changes) text := by
  refine ⟨fun table' h => readsAlike_of_agreeOn h, fun changes hchanges => ?_⟩
  have hself : VarTable.AgreeOn text table table := fun c _ => rfl
  exact readsAlike_of_agreeOn (hself.afterAll hchanges)

/-- The letter of a text is moved while others come and go. -/
theorem readsAlike_after_moving_x :
    ReadsAlike .initial
        (VarTable.initial.afterAll [.register 'w' 0, .forget 'y', .register 'x' 7, .forget 'z'])
        "2x(-x)".toList := by
  refine (readsAlike_of_same_letters .initial "2x(-x)".toList).2 _ ?_
  have hx : VarTable.initial.contains 'x' := rfl
  simp [VarTable.Change.IsHidden, hx]

end Equation

end FormulaCalc
