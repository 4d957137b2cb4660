import FormulaCalc.Proofs.CompactRoundTrip
import FormulaCalc.Proofs.DepthCounting
/-!
# The brackets of compact forms

The printer of compact forms puts brackets around parts of the expression.  `bracketPairs` lists
them, each with the part it encloses and the text on both sides of it.

The list is told from the text alone (`lists_compact`): its members are the matching pairs of
brackets in the compact form, all of them, and between the brackets stands the compact form of the
part.  This rests on how pairs lie in balanced words: beside one another or inside one another
(`HasPair.split`).
-/

namespace FormulaCalc

/-- Whether a text has a pair of matching brackets, with these texts before, in and behind it. -/
def HasPair (text before inner behind : List Char) : Prop :=
  text = before ++ '(' :: (inner ++ ')' :: behind) ∧ Balanced inner

section Pairs

open BracketedText

variable {u v w before inner behind : List Char} {c : Char}

theorem closing?_of_hasPair
    (h : HasPair w before inner behind) :
    (ofText w).closing? before.length = some (before.length + 1 + inner.length) := by
  obtain ⟨rfl, hinner⟩ := h
  refine closing?_eq_some_iff_balanced.2 ⟨inner, hinner, rfl, behind, ?_⟩
  rw [List.drop_left, bracketed_append]

theorem not_hasPair_of_no_bracket
    (h : ∀ c ∈ w, c ≠ '(') :
    ¬ HasPair w before inner behind := by
  rintro ⟨rfl, -⟩
  exact h '(' (List.mem_append_right before List.mem_cons_self) rfl

/-- A pair of brackets in a text lies on one side of a character behind a balanced word. -/
theorem HasPair.split
    (hu : Balanced u)
    (hc : c ≠ '(')
    (h : HasPair (u ++ c :: v) before inner behind) :
    (∃ b, HasPair u before inner b ∧ behind = b ++ c :: v) ∨
      ∃ b, HasPair v b inner behind ∧ before = u ++ c :: b := by
  have hclosing := closing?_of_hasPair h
  obtain ⟨heq, hinner⟩ := h
  rcases List.append_eq_append_iff.1 heq with ⟨z, rfl, hz⟩ | ⟨z, rfl, hz⟩
  · -- the pair opens behind the word
    cases z with
    | nil =>
        exact absurd (List.cons.inj hz).1 hc
    | cons d z =>
        obtain ⟨rfl, hv⟩ := List.cons.inj hz
        exact .inr ⟨z, ⟨hv, hinner⟩, rfl⟩
  · cases z with
    | nil =>
        exact absurd (List.cons.inj hz).1.symm hc
    | cons d z =>
        -- it opens in the word, so it is closed there
        obtain ⟨rfl, hbehind⟩ := List.cons.inj hz
        have hstands : StandsAt (before ++ '(' :: z ++ c :: v) 0 (before ++ '(' :: z) :=
          List.prefix_append _ _
        have hlength := length_chain before z '('
        have hlt := closing?_lt_of_balanced hu hstands (Nat.zero_le _) (by omega) hclosing
        rcases List.append_eq_append_iff.1 hbehind with ⟨y, rfl, hy⟩ | ⟨y, rfl, hy⟩
        · cases y with
          | nil =>
              rw [List.append_nil] at hlength hlt
              omega
          | cons d y =>
              obtain ⟨rfl, hrest⟩ := List.cons.inj hy
              exact .inl ⟨y, ⟨rfl, hinner⟩, hrest⟩
        · rw [List.length_append] at hlt
          omega

theorem HasPair.within
    (h : HasPair w before inner behind)
    (left right : List Char) :
    HasPair (left ++ w ++ right) (left ++ before) inner (behind ++ right) := by
  obtain ⟨rfl, hinner⟩ := h
  exact ⟨by simp, hinner⟩

theorem hasPair_chain_iff
    (hu : Balanced u)
    (hc : c ≠ '(') :
    HasPair (u ++ c :: v) before inner behind ↔
      (∃ b, HasPair u before inner b ∧ behind = b ++ c :: v) ∨
        ∃ b, HasPair v b inner behind ∧ before = u ++ c :: b := by
  constructor
  · intro h
    exact h.split hu hc
  · rintro (⟨b, h, rfl⟩ | ⟨b, h, rfl⟩)
    · have hpair := h.within [] (c :: v)
      exact hpair
    · have hpair := h.within (u ++ [c]) []
      simpa using hpair

theorem hasPair_bracketed_iff
    (hw : Balanced w) :
    HasPair ('(' :: w ++ [')']) before inner behind ↔
      (before = [] ∧ inner = w ∧ behind = []) ∨
        ∃ b b', HasPair w b inner b' ∧ before = '(' :: b ∧ behind = b' ++ [')'] := by
  constructor
  · intro h
    cases before with
    | nil =>
        have hclosing := closing?_of_hasPair h
        have hwhole := closing?_eq_some_iff_balanced.2 ⟨w, hw, rfl, standsAt_zero _⟩
        have hsame := Option.some.inj (hwhole.symm.trans hclosing)
        have hlength : w.length = inner.length := by
          rw [List.length_nil] at hsame
          omega
        obtain ⟨heq, -⟩ := h
        obtain ⟨-, hrest⟩ := List.cons.inj heq
        obtain ⟨hinner, hbehind⟩ := List.append_inj hrest hlength
        exact .inl ⟨rfl, hinner.symm, (List.cons.inj hbehind).2.symm⟩
    | cons d b =>
        obtain ⟨heq, hinner⟩ := h
        obtain ⟨rfl, hrest⟩ := List.cons.inj heq
        have hclose : ')' ≠ '(' := by
          decide
        rcases HasPair.split hw hclose ⟨hrest, hinner⟩ with ⟨b', hpair, hbehind⟩ | ⟨_, hpair, -⟩
        · exact .inr ⟨b, b', hpair, rfl, hbehind⟩
        · exact absurd hpair (not_hasPair_of_no_bracket (by simp))
  · rintro (⟨rfl, rfl, rfl⟩ | ⟨b, b', h, rfl, rfl⟩)
    · exact ⟨rfl, hw⟩
    · exact h.within ['('] [')']

/-- A text stays balanced if a pair of brackets is taken out of it. -/
theorem HasPair.balanced_deleted
    (h : HasPair w before inner behind)
    (hw : Balanced w) :
    Balanced (before ++ (inner ++ behind)) := by
  obtain ⟨rfl, hinner⟩ := h
  rw [balanced_iff_depthBehind?, depthBehind?_append] at hw ⊢
  obtain ⟨depth, hbefore, hrest⟩ := Option.bind_eq_some_iff.1 hw
  rw [depthBehind?_open, depthBehind?_append, hinner.depthBehind?_eq, Option.bind_some,
    depthBehind?_close] at hrest
  rw [hbefore, Option.bind_some, depthBehind?_append, hinner.depthBehind?_eq, Option.bind_some,
    hrest]

end Pairs

/-- A pair of brackets around a part of an expression, and the printed text on both sides of it. -/
structure BracketPair where
  before : List Char
  enclosed : Expr
  behind : List Char
  /-- Whether the part is what a negation takes away from the zero it is written with. -/
  behindZero : Bool
deriving DecidableEq

namespace BracketPair

/-- The pair in a longer text. -/
def within (p : BracketPair) (left right : List Char) : BracketPair :=
  { p with before := left ++ p.before, behind := p.behind ++ right }

/-- The text without the pair. -/
def deleted (p : BracketPair) : List Char :=
  p.before ++ (p.enclosed.compact ++ p.behind)

/-- Whether the pair has these texts before, in and behind it. -/
def Is (p : BracketPair) (before inner behind : List Char) : Prop :=
  p.before = before ∧ p.enclosed.compact = inner ∧ p.behind = behind

/--
The pairs of a part that gets brackets where they are asked for, the pairs inside of it being known.
-/
def listIf (wanted behindZero : Bool) (enclosed : Expr) (inside : List BracketPair) :
    List BracketPair :=
  if wanted then ⟨[], enclosed, [], behindZero⟩ :: inside.map (·.within ['('] [')']) else inside

/-- Whether a list has exactly the pairs of matching brackets of a text. -/
def Lists (pairs : List BracketPair) (text : List Char) : Prop :=
  ∀ before inner behind,
    (∃ p ∈ pairs, p.Is before inner behind) ↔ HasPair text before inner behind

end BracketPair

namespace Expr

/-- The pairs of brackets in the compact form, as a whole text or as an operand. -/
def bracketPairsAs (whole : Bool) : Expr → List BracketPair
  | number value => BracketPair.listIf (value.negative && !whole) false (number value) []
  | var _ _ => []
  | binary op left right =>
    if (binary op left right).asNegation?.isSome then
      BracketPair.listIf (!whole) false (binary op left right) <|
        if right.isUnsignedAtom then []
        else
          (BracketPair.listIf (right.rank < Level.product.rank) true right
            (right.bracketPairsAs false)).map (·.within ['0', '-'] [])
    else
      let u := bracketIf (left.rank ≤ op.level.rank) (left.compactAs false)
      let v := bracketIf (right.rank < op.level.rank) (right.compactAs false)
      (BracketPair.listIf (left.rank ≤ op.level.rank) false left
          (left.bracketPairsAs false)).map (·.within [] (op.symbol :: v))
        ++ (BracketPair.listIf (right.rank < op.level.rank) false right
          (right.bracketPairsAs false)).map (·.within (u ++ [op.symbol]) [])

/-- The pairs of brackets in the compact form. -/
def bracketPairs (e : Expr) : List BracketPair :=
  e.bracketPairsAs true

end Expr

namespace BracketPair

section Listing

variable {pairs more : List BracketPair} {u v w : List Char}

/-- What is listed for a part is what is listed for the text around it, seen from there. -/
theorem exists_within_iff
    {left right before inner behind : List Char} :
    (∃ p ∈ pairs.map (·.within left right), p.Is before inner behind) ↔
      ∃ b b', (∃ p ∈ pairs, p.Is b inner b') ∧ before = left ++ b ∧ behind = b' ++ right := by
  constructor
  · rintro ⟨_, hp, rfl, rfl, rfl⟩
    obtain ⟨inside, hinside, rfl⟩ := List.mem_map.1 hp
    exact ⟨inside.before, inside.behind, ⟨inside, hinside, rfl, rfl, rfl⟩, rfl, rfl⟩
  · rintro ⟨_, _, ⟨p, hp, rfl, rfl, rfl⟩, rfl, rfl⟩
    exact ⟨_, List.mem_map_of_mem hp, rfl, rfl, rfl⟩

theorem Lists.none
    (h : ∀ c ∈ w, c ≠ '(') :
    Lists [] w := by
  intro before inner behind
  exact iff_of_false (by simp) (not_hasPair_of_no_bracket h)

theorem Lists.listIf
    {wanted behindZero : Bool} {enclosed : Expr}
    (h : Lists pairs w)
    (hw : Balanced w)
    (henclosed : wanted = true → enclosed.compact = w) :
    Lists (listIf wanted behindZero enclosed pairs) (Expr.bracketIf wanted w) := by
  cases wanted with
  | false =>
      exact h
  | true =>
      intro before inner behind
      obtain rfl := henclosed rfl
      rw [show Expr.bracketIf true enclosed.compact = '(' :: enclosed.compact ++ [')'] from rfl,
        hasPair_bracketed_iff hw, BracketPair.listIf, if_pos rfl]
      simp only [List.mem_cons, exists_eq_or_imp]
      refine or_congr ?_ ?_
      · simp [Is, eq_comm]
      · rw [exists_within_iff]
        simp only [h _ _ _]
        rfl

theorem Lists.chain
    {c : Char}
    (hu : Balanced u)
    (hc : c ≠ '(')
    (h : Lists pairs u)
    (h' : Lists more v) :
    Lists (pairs.map (·.within [] (c :: v)) ++ more.map (·.within (u ++ [c]) []))
      (u ++ c :: v) := by
  intro before inner behind
  rw [hasPair_chain_iff hu hc]
  simp only [List.mem_append, or_and_right, exists_or]
  refine or_congr ?_ ?_
  · rw [exists_within_iff]
    simp only [h _ _ _]
    constructor
    · rintro ⟨b, b', hpair, rfl, rfl⟩
      exact ⟨b', hpair, rfl⟩
    · rintro ⟨b', hpair, rfl⟩
      exact ⟨before, b', hpair, rfl, rfl⟩
  · rw [exists_within_iff]
    simp only [h' _ _ _]
    simp

end Listing

end BracketPair

namespace Expr

open BracketPair

variable {table : VarTable} {e : Expr}

theorem balanced_compactAs
    (h : e.isOver table)
    (whole : Bool) :
    Balanced (e.compactAs whole) := by
  obtain ⟨hwhole, level, -, hoperand⟩ := spelledAs_mergeSigns h
  cases whole with
  | true =>
      exact hwhole.phrase.balanced
  | false =>
      exact hoperand.phrase.balanced

theorem balanced_bracketIf
    {w : List Char}
    (h : Balanced w)
    (wanted : Bool) :
    Balanced (bracketIf wanted w) := by
  cases wanted with
  | false =>
      exact h
  | true =>
      exact h.bracketed

/-- As an operand, what binds less tightly than an atom is printed as it is alone. -/
theorem compactAs_eq_compact
    (h : e.rank < 4) :
    e.compactAs false = e.compact := by
  cases e with
  | number | var =>
      exact absurd h (Nat.lt_irrefl 4)
  | binary op left right =>
      have hneg : ¬ (binary op left right).asNegation?.isSome := by
        intro hneg
        rw [rank_of_negation hneg] at h
        exact absurd h (Nat.lt_irrefl 4)
      rw [compact, compactAs_of_not_negation hneg, compactAs_of_not_negation hneg]

theorem no_bracket_render
    {v : Binary64}
    (h : v.isFinite) :
    ∀ c ∈ v.render, c ≠ '(' := by
  obtain ⟨n, hn, hrender⟩ := exists_numeral_of_isFinite h
  have hplain : ∀ c ∈ n, c ≠ '(' := fun c hc =>
    (ne_brackets_of_symbol?_eq_none (hn.plain c hc)).1
  rw [hrender]
  cases v.negative with
  | false =>
      exact hplain
  | true =>
      exact List.forall_mem_cons.2 ⟨by decide, hplain⟩

/-- What a sign is put in front of has no brackets. -/
theorem no_bracket_of_isUnsignedAtom
    (h : e.isOver table)
    (hatom : e.isUnsignedAtom) :
    ∀ c ∈ e.compactAs false, c ≠ '(' := by
  cases e with
  | number v =>
      have hsign : v.negative = false := by
        simpa [isUnsignedAtom] using hatom
      rw [compactAs_unsignedNumber hsign]
      exact no_bracket_render h
  | var slot letter =>
      have hslot : table.slotOf? letter = some slot := of_decide_eq_true h
      exact fun c hc => (ne_brackets_of_symbol?_eq_none (plain_of_slotOf? hslot c hc)).1
  | binary =>
      cases hatom

theorem rank_lt_four_of_le
    {level : Level}
    (h : e.rank ≤ level.rank) :
    e.rank < 4 := by
  have hlevel : level.rank < 4 := by
    cases level <;> decide
  exact Nat.lt_of_le_of_lt h hlevel

theorem rank_lt_four_of_lt
    {level : Level}
    (h : e.rank < level.rank) :
    e.rank < 4 := by
  exact rank_lt_four_of_le (Nat.le_of_lt h)

/-- The pairs of an operand that gets brackets where it binds less tightly than is asked for. -/
theorem lists_operand
    {wanted : Bool}
    (h : e.isOver table)
    (hlists : Lists (e.bracketPairsAs false) (e.compactAs false))
    (behindZero : Bool)
    (hrank : wanted = true → e.rank < 4) :
    Lists (listIf wanted behindZero e (e.bracketPairsAs false))
      (bracketIf wanted (e.compactAs false)) := by
  refine hlists.listIf (balanced_compactAs h false) fun hwanted => ?_
  exact (compactAs_eq_compact (hrank hwanted)).symm

/-- **All pairs of brackets in the printed text are listed, and nothing else.** -/
theorem lists_compactAs
    (h : e.isOver table)
    (whole : Bool) :
    Lists (e.bracketPairsAs whole) (e.compactAs whole) := by
  induction e generalizing whole with
  | number v =>
      have hfinite : v.isFinite := h
      have hnone := Lists.none (no_bracket_render hfinite)
      have hwhole := balanced_compactAs h true
      have hcompact : (number v).compactAs true = v.render := by
        rw [compactAs, Bool.not_true, Bool.and_false]
        rfl
      rw [hcompact] at hwhole
      rw [bracketPairsAs, compactAs]
      exact hnone.listIf hwhole fun _ => hcompact
  | var slot letter =>
      exact .none (no_bracket_of_isUnsignedAtom h rfl)
  | binary op left right ihl ihr =>
      obtain ⟨hleft, hright⟩ := Bool.and_eq_true_iff.1 h
      by_cases hneg : (binary op left right).asNegation?.isSome
      · have hwhole := balanced_compactAs h true
        rw [compactAs_of_negation hneg] at hwhole
        rw [bracketPairsAs, if_pos hneg, compactAs_of_negation hneg]
        refine Lists.listIf ?_ hwhole fun _ => ?_
        · cases hatom : right.isUnsignedAtom with
          | true =>
              refine .none (List.forall_mem_cons.2 ⟨by decide, ?_⟩)
              exact no_bracket_of_isUnsignedAtom hright hatom
          | false =>
              have hzero : Lists [] ['0'] := .none fun c hc =>
                (ne_brackets_of_symbol?_eq_none (IsNumeral.zero.plain c hc)).1
              have hdigit : Balanced ['0'] := .plain (by decide) (by decide) .nil
              have hrank (h : decide (right.rank < Level.product.rank) = true) :=
                rank_lt_four_of_lt (of_decide_eq_true h)
              have hlists := lists_operand hright (ihr hright false) true hrank
              exact Lists.chain (c := '-') hdigit (by decide) hzero hlists
        · rw [compact, compactAs_of_negation hneg]
          rfl
      · rw [bracketPairsAs, if_neg hneg, compactAs_of_not_negation hneg]
        have hrank (h : decide (left.rank ≤ op.level.rank) = true) :=
          rank_lt_four_of_le (of_decide_eq_true h)
        have hrank' (h : decide (right.rank < op.level.rank) = true) :=
          rank_lt_four_of_lt (of_decide_eq_true h)
        have hlists := lists_operand hleft (ihl hleft false) false hrank
        have hlists' := lists_operand hright (ihr hright false) false hrank'
        exact Lists.chain (balanced_bracketIf (balanced_compactAs hleft false) _)
          (symbol_ne_brackets op).1 hlists hlists'

/-- The listed pairs are the matching pairs of brackets in the compact form. -/
theorem lists_compact
    (h : e.isOver table) :
    Lists e.bracketPairs e.compact := by
  exact lists_compactAs h true

end Expr

end FormulaCalc
