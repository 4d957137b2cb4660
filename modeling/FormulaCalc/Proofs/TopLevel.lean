import FormulaCalc.Proofs.Precedence
/-!
# Operators at the top level

The walk along a slice lists the operators outside of brackets.  Its steps are stated here by the
character that is met, and from them follow the two facts on which every split rests: the walk can
be cut at an operator it has found (`operatorsFrom_split`), and along a phrase it finds operators
of the level of the phrase or tighter (`Phrase.exists_topOperators`).  The principal operator is
then the first one of the loosest level (`principal?_eq_some_iff`).
-/

namespace FormulaCalc

theorem symbol_of_ofSymbol?
    {c : Char} {op : Operator}
    (h : Operator.ofSymbol? c = some op) :
    c = op.symbol := by
  unfold Operator.ofSymbol? at h
  split at h <;> cases h <;> rfl

theorem operator_eq_of_symbol_eq
    {op other : Operator}
    (h : op.symbol = other.symbol) :
    op = other := by
  have hof := congrArg Operator.ofSymbol? h
  rw [Operator.ofSymbol?_symbol, Operator.ofSymbol?_symbol] at hof
  exact Option.some.inj hof

theorem ofSymbol?_of_isSign
    {c : Char}
    (h : Token.isSign c) :
    ∃ op, Operator.ofSymbol? c = some op ∧ op.level = .sum := by
  rcases isSign_iff.1 h with rfl | rfl
  · exact ⟨.add, rfl, rfl⟩
  · exact ⟨.sub, rfl, rfl⟩

namespace BracketedText

section Steps

variable {t : BracketedText} {i stop : Nat}

theorem stripOuter_of_enclosed
    {start : Nat}
    (hlt : start + 1 < stop)
    (hclosing : t.closing? start = some (stop - 1)) :
    t.stripOuter start stop = t.stripOuter (start + 1) (stop - 1) := by
  rw [stripOuter, dif_pos ⟨hlt, hclosing⟩]

theorem stripOuter_of_bare
    {start : Nat}
    (h : ¬ (start + 1 < stop ∧ t.closing? start = some (stop - 1))) :
    t.stripOuter start stop = (start, stop) := by
  rw [stripOuter, dif_neg h]

theorem operatorsFrom_of_le
    (h : stop ≤ i) :
    t.operatorsFrom stop i = [] := by
  rw [operatorsFrom, dif_neg (by omega)]

theorem operatorsFrom_group
    {closing : Nat}
    (hlt : i < stop)
    (hchar : t.chars[i]? = some '(')
    (hclosing : t.closing? i = some closing) :
    t.operatorsFrom stop i = t.operatorsFrom stop (closing + 1) := by
  rw [operatorsFrom, dif_pos hlt]
  simp only [hchar]
  split
  · next heq =>
      rw [hclosing] at heq
      rw [Option.some.inj heq]
  · next heq =>
      rw [hclosing] at heq
      cases heq

/-- A bracket that nothing closes ends the walk. -/
theorem operatorsFrom_unclosed
    (hchar : t.chars[i]? = some '(')
    (hclosing : t.closing? i = none) :
    t.operatorsFrom stop i = [] := by
  rw [operatorsFrom]
  split
  · simp only [hchar]
    split
    · next heq =>
        rw [hclosing] at heq
        cases heq
    · rfl
  · rfl

theorem operatorsFrom_operator
    {op : Operator}
    (hlt : i < stop)
    (hchar : t.chars[i]? = some op.symbol) :
    t.operatorsFrom stop i = (op, i) :: t.operatorsFrom stop (i + 1) := by
  have hopen := (symbol_ne_brackets op).1
  rw [operatorsFrom, dif_pos hlt]
  simp only [hchar]
  split
  · next heq =>
      rw [Operator.ofSymbol?_symbol] at heq
      rw [Option.some.inj heq]
  · next heq =>
      rw [Operator.ofSymbol?_symbol] at heq
      cases heq

theorem operatorsFrom_plain
    {c : Char}
    (hlt : i < stop)
    (hchar : t.chars[i]? = some c)
    (hopen : c ≠ '(')
    (hplain : Operator.ofSymbol? c = none) :
    t.operatorsFrom stop i = t.operatorsFrom stop (i + 1) := by
  rw [operatorsFrom, dif_pos hlt]
  simp only [hchar, hplain]

/-- The walk can be cut at an operator it finds. -/
theorem operatorsFrom_split
    {before after : List (Operator × Nat)} {op : Operator} {p : Nat}
    (h : t.operatorsFrom stop i = before ++ (op, p) :: after) :
    t.operatorsFrom p i = before ∧
      t.operatorsFrom stop (p + 1) = after ∧
      t.chars[p]? = some op.symbol := by
  have hbounds : (op, p) ∈ t.operatorsFrom stop i := by
    rw [h]
    simp
  fun_induction operatorsFrom t stop i generalizing before with
  | case1 i hlt hchar closing hclosing ih =>
      have hgt := lt_of_closing? hclosing
      have hp := operatorsFrom_bounds hbounds
      dsimp only at hp
      rw [operatorsFrom_group (by omega) hchar hclosing]
      exact ih h hbounds
  | case3 i hlt c hopen hchar other hother ih =>
      obtain rfl := symbol_of_ofSymbol? hother
      cases before with
      | nil =>
          obtain ⟨hfound, hrest⟩ := List.cons.inj h
          obtain ⟨rfl, rfl⟩ := Prod.mk.inj hfound
          exact ⟨operatorsFrom_of_le (Nat.le_refl _), hrest, hchar⟩
      | cons first before =>
          obtain ⟨rfl, hrest⟩ := List.cons.inj h
          have hmem : (op, p) ∈ t.operatorsFrom stop (i + 1) := by
            rw [hrest]
            simp
          have hp := operatorsFrom_bounds hmem
          dsimp only at hp
          obtain ⟨hbefore, hafter⟩ := ih hrest hmem
          refine ⟨?_, hafter⟩
          rw [operatorsFrom_operator (by omega) hchar, hbefore]
  | case4 i hlt c hopen hchar hplain ih =>
      have hp := operatorsFrom_bounds hbounds
      dsimp only at hp
      obtain ⟨hbefore, hafter⟩ := ih h hbounds
      refine ⟨?_, hafter⟩
      rw [operatorsFrom_plain (by omega) hchar hopen hplain, hbefore]
  | _ =>
      simp at hbounds

end Steps

section Principal

variable {t : BracketedText} {start stop : Nat}

theorem principal?_eq_none_iff :
    t.principal? start stop = none ↔ t.topOperators start stop = [] := by
  rw [principal?, List.findSome?_eq_none_iff]
  constructor
  · intro h
    rw [List.eq_nil_iff_forall_not_mem]
    rintro ⟨op, p⟩ hmem
    have hlevel : op.level ∈ [Level.sum, Level.product, Level.power] := by
      cases op <;> simp [Operator.level]
    have hnone := List.find?_eq_none.1 (h op.level hlevel) (op, p) hmem
    simp at hnone
  · intro h level _
    rw [h]
    rfl

/-- Among operators there is a first one of the loosest level. -/
theorem exists_first_loosest
    {found : List (Operator × Nat)}
    (hne : found ≠ []) :
    ∃ before op p after,
      found = before ++ (op, p) :: after ∧
      (∀ x ∈ before, op.level.rank < x.1.level.rank) ∧
      ∀ x ∈ after, op.level.rank ≤ x.1.level.rank := by
  induction found with
  | nil =>
      exact absurd rfl hne
  | cons first rest ih =>
      by_cases hrest : rest = []
      · exact ⟨[], first.1, first.2, [], by rw [hrest]; rfl, by simp, by simp⟩
      · obtain ⟨before, op, p, after, rfl, hbefore, hafter⟩ := ih hrest
        by_cases hle : first.1.level.rank ≤ op.level.rank
        · refine ⟨[], first.1, first.2, _, rfl, by simp, fun x hx => ?_⟩
          rcases List.mem_append.1 hx with hx | hx
          · exact Nat.le_trans hle (Nat.le_of_lt (hbefore x hx))
          · rcases List.mem_cons.1 hx with rfl | hx
            · exact hle
            · exact Nat.le_trans hle (hafter x hx)
        · refine ⟨first :: before, op, p, after, rfl, fun x hx => ?_, hafter⟩
          rcases List.mem_cons.1 hx with rfl | hx
          · omega
          · exact hbefore x hx

theorem principal?_of_first_loosest
    {before after : List (Operator × Nat)} {op : Operator} {p : Nat}
    (hfound : t.topOperators start stop = before ++ (op, p) :: after)
    (hbefore : ∀ x ∈ before, op.level.rank < x.1.level.rank)
    (hafter : ∀ x ∈ after, op.level.rank ≤ x.1.level.rank) :
    t.principal? start stop = some (op, p) := by
  have hfind :
      (t.topOperators start stop).find? (fun x => x.1.level = op.level) = some (op, p) := by
    refine List.find?_eq_some_iff_append.2 ⟨by simp, before, after, hfound, fun x hx => ?_⟩
    have hlt := hbefore x hx
    simp only [Bool.not_eq_true', decide_eq_false_iff_not]
    intro heq
    rw [heq] at hlt
    omega
  have hnone (level : Level) (hlt : level.rank < op.level.rank) :
      (t.topOperators start stop).find? (fun x => x.1.level = level) = none := by
    refine List.find?_eq_none.2 fun x hx => ?_
    have hle : op.level.rank ≤ x.1.level.rank := by
      rw [hfound] at hx
      rcases List.mem_append.1 hx with hx | hx
      · exact Nat.le_of_lt (hbefore x hx)
      · rcases List.mem_cons.1 hx with rfl | hx
        · exact Nat.le_refl _
        · exact hafter x hx
    rw [decide_eq_true_eq]
    rintro rfl
    omega
  rw [principal?]
  cases hlevel : op.level with
  | sum =>
      rw [hlevel] at hfind
      rw [List.findSome?_cons, hfind]
  | product =>
      rw [hlevel] at hfind hnone
      rw [List.findSome?_cons, hnone .sum (by decide), List.findSome?_cons, hfind]
  | power =>
      rw [hlevel] at hfind hnone
      rw [List.findSome?_cons, hnone .sum (by decide), List.findSome?_cons,
        hnone .product (by decide), List.findSome?_cons, hfind]

/-- The principal operator is the first one of the loosest level. -/
theorem principal?_eq_some_iff
    {op : Operator} {p : Nat} :
    t.principal? start stop = some (op, p) ↔
      ∃ before after,
        t.topOperators start stop = before ++ (op, p) :: after ∧
        (∀ x ∈ before, op.level.rank < x.1.level.rank) ∧
        ∀ x ∈ after, op.level.rank ≤ x.1.level.rank := by
  constructor
  · intro h
    have hne : t.topOperators start stop ≠ [] := by
      intro hnil
      rw [principal?_eq_none_iff.2 hnil] at h
      cases h
    obtain ⟨before, other, q, after, hfound, hbefore, hafter⟩ := exists_first_loosest hne
    rw [principal?_of_first_loosest hfound hbefore hafter] at h
    cases h
    exact ⟨before, after, hfound, hbefore, hafter⟩
  · rintro ⟨before, after, hfound, hbefore, hafter⟩
    exact principal?_of_first_loosest hfound hbefore hafter

end Principal

section Phrases

variable {text : List Char}

theorem chars_ofText
    (text : List Char) (i : Nat) :
    (ofText text).chars[i]? = text[i]? := by
  rw [ofText, List.getElem?_toArray]

theorem hasSignAt_ofText_iff
    {i : Nat} :
    (ofText text).hasSignAt i ↔ ∃ c, text[i]? = some c ∧ Token.isSign c := by
  simp only [hasSignAt, chars_ofText, isSign_iff, Bool.or_eq_true, decide_eq_true_eq]
  constructor
  · rintro (h | h)
    · exact ⟨'+', h, .inl rfl⟩
    · exact ⟨'-', h, .inr rfl⟩
  · rintro ⟨c, h, rfl | rfl⟩
    · exact .inl h
    · exact .inr h

theorem hasSignAt_iff_of_standsAt
    {i : Nat} {w : List Char}
    (hstands : StandsAt text i w)
    (hne : w ≠ []) :
    (ofText text).hasSignAt i ↔ ∃ c ∈ w.head?, Token.isSign c := by
  obtain ⟨c, rest, rfl⟩ := List.exists_cons_of_ne_nil hne
  rw [hasSignAt_ofText_iff, (standsAt_cons_iff.1 hstands).1]
  simp

/-- The walk passes over a word without symbols. -/
theorem operatorsFrom_word
    {stop i : Nat} {w : List Char}
    (hstands : StandsAt text i w)
    (hplain : ∀ c ∈ w, Token.symbol? c = none)
    (hle : i + w.length ≤ stop) :
    (ofText text).operatorsFrom stop i = (ofText text).operatorsFrom stop (i + w.length) := by
  induction w generalizing i with
  | nil =>
      rfl
  | cons c w ih =>
      obtain ⟨hchar, hrest⟩ := standsAt_cons_iff.1 hstands
      have hsymbol := hplain c List.mem_cons_self
      have hopen := (ne_brackets_of_symbol?_eq_none hsymbol).1
      have hop := ofSymbol?_eq_none_of_symbol?_eq_none hsymbol
      rw [List.length_cons] at hle
      rw [operatorsFrom_plain (by omega) (by rw [chars_ofText, hchar]) hopen hop,
        ih hrest (fun d hd => hplain d (List.mem_cons_of_mem c hd)) (by omega),
        List.length_cons]
      congr 1
      omega

theorem topOperators_of_no_sign
    {start stop : Nat}
    (h : (ofText text).hasSignAt start = false) :
    (ofText text).topOperators start stop = (ofText text).operatorsFrom stop start := by
  rw [topOperators, h]
  rfl

theorem topOperators_of_sign
    {start stop : Nat}
    (h : (ofText text).hasSignAt start = true) :
    (ofText text).topOperators start stop = (ofText text).operatorsFrom stop (start + 1) := by
  rw [topOperators, h]
  rfl

/-- The exemption of its first character hides at most one operator of a slice, a sign. -/
theorem exists_hidden_sign
    (text : List Char) (start stop : Nat) :
    ∃ hidden : List (Operator × Nat),
      (ofText text).operatorsFrom stop start =
        hidden ++ (ofText text).topOperators start stop ∧
      ∀ x ∈ hidden, x.1.level = .sum ∧ (ofText text).hasSignAt start := by
  by_cases hsign : (ofText text).hasSignAt start
  · by_cases hlt : start < stop
    · obtain ⟨c, hchar, hc⟩ := hasSignAt_ofText_iff.1 hsign
      obtain ⟨op, hop, hlevel⟩ := ofSymbol?_of_isSign hc
      obtain rfl := symbol_of_ofSymbol? hop
      refine ⟨[(op, start)], ?_, ?_⟩
      · rw [topOperators_of_sign hsign, operatorsFrom_operator hlt (by rw [chars_ofText, hchar])]
        rfl
      · simp [hlevel, hsign]
    · refine ⟨[], ?_, by simp⟩
      rw [topOperators_of_sign hsign, operatorsFrom_of_le (by omega),
        operatorsFrom_of_le (by omega)]
      rfl
  · refine ⟨[], ?_, by simp⟩
    rw [topOperators_of_no_sign (by simpa using hsign)]
    rfl

theorem mem_operatorsFrom_of_mem_topOperators
    {start stop : Nat} {x : Operator × Nat}
    (h : x ∈ (ofText text).topOperators start stop) :
    x ∈ (ofText text).operatorsFrom stop start := by
  obtain ⟨hidden, hhidden, -⟩ := exists_hidden_sign text start stop
  rw [hhidden]
  exact List.mem_append_right hidden h

/-- Behind an operator that is not additive, a sign would be a looser operator. -/
theorem head_not_sign_of_rank_le
    {i stop : Nat} {w : List Char} {level : Level}
    (hstands : StandsAt text i w)
    (hlt : i < stop)
    (hrank : ∀ x ∈ (ofText text).operatorsFrom stop i, level.rank ≤ x.1.level.rank)
    (hne : level ≠ .sum) :
    ∀ c ∈ w.head?, Token.isSign c = false := by
  intro c hc
  rw [Bool.eq_false_iff]
  intro hsign
  obtain ⟨op, hop, hlevel⟩ := ofSymbol?_of_isSign hsign
  obtain rfl := symbol_of_ofSymbol? hop
  obtain ⟨rest, rfl⟩ := List.head?_eq_some_iff.1 hc
  have hchar := (standsAt_cons_iff.1 hstands).1
  rw [operatorsFrom_operator hlt (by rw [chars_ofText, hchar])] at hrank
  have hle := hrank (op, i) List.mem_cons_self
  rw [hlevel] at hle
  cases level with
  | sum =>
      exact hne rfl
  | product | power =>
      exact absurd hle (by decide)

/-- The operators of the two halves of a slice that is cut at its principal operator. -/
theorem exists_split_of_principal?
    {i position : Nat} {w : List Char} {op : Operator}
    (hstands : StandsAt text i w)
    (h : (ofText text).principal? i (i + w.length) = some (op, position)) :
    ∃ u v,
      w = u ++ op.symbol :: v ∧
      position = i + u.length ∧
      (∀ x ∈ (ofText text).topOperators i position, op.level.rank < x.1.level.rank) ∧
      ∀ x ∈ (ofText text).operatorsFrom (i + w.length) (position + 1),
        op.level.rank ≤ x.1.level.rank := by
  obtain ⟨before, after, hfound, hbefore, hafter⟩ := principal?_eq_some_iff.1 h
  obtain ⟨hwalk, hrest, hchar⟩ := operatorsFrom_split hfound
  rw [chars_ofText] at hchar
  obtain ⟨hle, hlt⟩ := principal?_bounds h
  obtain ⟨u, v, hw, hposition⟩ := exists_split_of_standsAt hstands hchar hle hlt
  refine ⟨u, v, hw, hposition, ?_, ?_⟩
  · rw [topOperators, hwalk]
    exact hbefore
  · rw [hrest]
    exact hafter

theorem mem_topOperators_of_principal?
    {t : BracketedText} {start stop position : Nat} {op : Operator}
    (h : t.principal? start stop = some (op, position)) :
    (op, position) ∈ t.topOperators start stop := by
  obtain ⟨before, after, hfound, -, -⟩ := principal?_eq_some_iff.1 h
  rw [hfound]
  exact List.mem_append_right before List.mem_cons_self

theorem topOperators_word
    {stop i : Nat} {w : List Char}
    (hstands : StandsAt text i w)
    (hplain : ∀ c ∈ w, Token.symbol? c = none)
    (hne : w ≠ [])
    (hle : i + w.length ≤ stop) :
    (ofText text).topOperators i stop = (ofText text).operatorsFrom stop (i + w.length) := by
  have hsign : (ofText text).hasSignAt i = false := by
    rw [Bool.eq_false_iff, ne_eq, hasSignAt_iff_of_standsAt hstands hne]
    rintro ⟨c, hc, hsign⟩
    rw [(head_not_symbol hplain c hc).2] at hsign
    cases hsign
  rw [topOperators_of_no_sign hsign, operatorsFrom_word hstands hplain hle]

theorem topOperators_signed_word
    {stop i : Nat} {sign : Char} {w : List Char}
    (hstands : StandsAt text i (sign :: w))
    (hsign : Token.isSign sign)
    (hplain : ∀ c ∈ w, Token.symbol? c = none)
    (hle : i + (sign :: w).length ≤ stop) :
    (ofText text).topOperators i stop =
      (ofText text).operatorsFrom stop (i + (sign :: w).length) := by
  have hsignAt : (ofText text).hasSignAt i = true :=
    (hasSignAt_iff_of_standsAt hstands (by simp)).2 ⟨sign, rfl, hsign⟩
  rw [List.length_cons] at hle ⊢
  rw [topOperators_of_sign hsignAt,
    operatorsFrom_word (standsAt_cons_iff.1 hstands).2 hplain (by omega)]
  congr 1
  omega

/-- A group is passed over in one step. -/
theorem topOperators_bracketed
    {stop i : Nat} {w : List Char}
    (hbalanced : Balanced w)
    (hstands : StandsAt text i ('(' :: w ++ [')']))
    (hle : i + ('(' :: w ++ [')']).length ≤ stop) :
    (ofText text).topOperators i stop =
      (ofText text).operatorsFrom stop (i + ('(' :: w ++ [')']).length) := by
  have hclosing := closing?_eq_some_iff_balanced.2 ⟨w, hbalanced, rfl, hstands⟩
  have hchar := (brackets_of_closing? hclosing).1
  have hsign : (ofText text).hasSignAt i = false := by
    simp [hasSignAt, chars_ofText, hchar]
  rw [length_bracketed] at hle ⊢
  rw [topOperators_of_no_sign hsign,
    operatorsFrom_group (by omega) (by rw [chars_ofText, hchar]) hclosing]
  congr 1
  omega

/--
The walk along two operands with an operator between them.  A sign at the start of the right one is
among the operators found, which is why it may only follow an additive operator.
-/
theorem exists_topOperators_chain
    {i stop : Nat} {op : Operator} {u v : List Char} {before after : List (Operator × Nat)}
    (hstands : StandsAt text i (u ++ op.symbol :: v))
    (hle : i + (u ++ op.symbol :: v).length ≤ stop)
    (hbefore : (ofText text).topOperators i stop =
      before ++ (ofText text).operatorsFrom stop (i + u.length))
    (hafter : (ofText text).topOperators (i + u.length + 1) stop =
      after ++ (ofText text).operatorsFrom stop (i + u.length + 1 + v.length))
    (hrank : ∀ x ∈ after, op.level.rank ≤ x.1.level.rank)
    (hsign : (ofText text).hasSignAt (i + u.length + 1) → op.level = .sum) :
    ∃ behind,
      (ofText text).topOperators i stop =
        before ++ (op, i + u.length) ::
          (behind ++ (ofText text).operatorsFrom stop (i + (u ++ op.symbol :: v).length)) ∧
      ∀ x ∈ behind, op.level.rank ≤ x.1.level.rank := by
  obtain ⟨-, hchar, -⟩ := standsAt_chain_iff.1 hstands
  obtain ⟨hidden, hhidden, hsigns⟩ := exists_hidden_sign text (i + u.length + 1) stop
  have hlength := length_chain u v op.symbol
  have hend : i + u.length + 1 + v.length = i + (u ++ op.symbol :: v).length := by
    omega
  rw [hend] at hafter
  have hlt : i + u.length < stop := by
    omega
  rw [operatorsFrom_operator hlt (by rw [chars_ofText, hchar]), hhidden, hafter] at hbefore
  refine ⟨hidden ++ after, by simpa using hbefore, fun x hx => ?_⟩
  rcases List.mem_append.1 hx with hx | hx
  · obtain ⟨hlevel, hat⟩ := hsigns x hx
    exact Nat.le_of_eq (congrArg Level.rank ((hsign hat).trans hlevel.symm))
  · exact hrank x hx

end Phrases

end BracketedText

namespace Phrase

open BracketedText

variable {table : VarTable} {level : Option Level} {signed : Bool} {w : List Char} {e : Expr}
variable {text : List Char} {i stop : Nat}

theorem sum_of_hasSignAt
    {op : Operator}
    (h : Phrase table level (op.level = .sum) w e)
    (hstands : StandsAt text i w)
    (hsign : (ofText text).hasSignAt i) :
    op.level = .sum := by
  obtain ⟨c, hc, hsign⟩ := (hasSignAt_iff_of_standsAt hstands h.ne_nil).1 hsign
  exact of_decide_eq_true (h.signed_of_head_sign hc hsign)

/-- Along a phrase the walk finds operators of its level or tighter, and reaches its end. -/
theorem exists_topOperators
    (h : Phrase table level signed w e)
    (hstands : StandsAt text i w)
    (hle : i + w.length ≤ stop) :
    ∃ found,
      (ofText text).topOperators i stop =
        found ++ (ofText text).operatorsFrom stop (i + w.length) ∧
      ∀ x ∈ found, tightness level ≤ x.1.level.rank := by
  induction h generalizing i with
  | numeral hn _ =>
      exact ⟨[], topOperators_word hstands hn.plain hn.ne_nil hle, by simp⟩
  | signedNumeral hsign hn _ =>
      exact ⟨[], topOperators_signed_word hstands hsign hn.plain hle, by simp⟩
  | letter hslot =>
      exact ⟨[], topOperators_word hstands (plain_of_slotOf? hslot) (by simp) hle, by simp⟩
  | plusLetter hslot | minusLetter hslot =>
      exact ⟨[], topOperators_signed_word hstands rfl (plain_of_slotOf? hslot) hle, by simp⟩
  | bracketed hw _ =>
      exact ⟨[], topOperators_bracketed hw.balanced hstands hle, by simp⟩
  | operand _ ih =>
      obtain ⟨found, hfound, hrank⟩ := ih hstands hle
      refine ⟨found, hfound, fun x hx => ?_⟩
      exact Nat.le_of_lt (rank_lt_of_tightness_operand_le (hrank x hx))
  | @chain op _ u v _ _ _ hv ihu ihv =>
      obtain ⟨hstandsu, -, hstandsv⟩ := standsAt_chain_iff.1 hstands
      have hlength := length_chain u v op.symbol
      obtain ⟨before, hbefore, hranku⟩ := ihu hstandsu (by omega)
      obtain ⟨after, hafter, hrankv⟩ := ihv hstandsv (by omega)
      obtain ⟨behind, hfound, hbehind⟩ :=
        exists_topOperators_chain hstands hle hbefore hafter hrankv
          (hv.sum_of_hasSignAt hstandsv)
      refine ⟨before ++ (op, i + u.length) :: behind, by simpa using hfound, fun x hx => ?_⟩
      simp only [List.mem_append, List.mem_cons] at hx
      rcases hx with hx | rfl | hx
      · exact Nat.le_of_lt (rank_lt_of_tightness_operand_le (hranku x hx))
      · exact Nat.le_refl _
      · exact hbehind x hx

/-- The principal operator of a chain is the one between its operands. -/
theorem principal?_chain
    {op : Operator} {u v : List Char} {a b : Expr}
    (hu : Phrase table op.level.operand signed u a)
    (hv : Phrase table (some op.level) (op.level = .sum) v b)
    (hstands : StandsAt text i (u ++ op.symbol :: v)) :
    (ofText text).principal? i (i + (u ++ op.symbol :: v).length) =
      some (op, i + u.length) := by
  obtain ⟨hstandsu, -, hstandsv⟩ := standsAt_chain_iff.1 hstands
  have hlength := length_chain u v op.symbol
  have hle := Nat.le_refl (i + (u ++ op.symbol :: v).length)
  have hleu : i + u.length ≤ i + (u ++ op.symbol :: v).length := by
    omega
  have hlev : i + u.length + 1 + v.length ≤ i + (u ++ op.symbol :: v).length := by
    omega
  obtain ⟨before, hbefore, hranku⟩ := hu.exists_topOperators hstandsu hleu
  obtain ⟨after, hafter, hrankv⟩ := hv.exists_topOperators hstandsv hlev
  obtain ⟨behind, hfound, hbehind⟩ :=
    exists_topOperators_chain hstands hle hbefore hafter hrankv
      (hv.sum_of_hasSignAt hstandsv)
  rw [operatorsFrom_of_le hle, List.append_nil] at hfound
  refine principal?_eq_some_iff.2 ⟨before, behind, hfound, fun x hx => ?_, hbehind⟩
  exact rank_lt_of_tightness_operand_le (hranku x hx)

end Phrase

end FormulaCalc
