import FormulaCalc.Proofs.WrittenProduct
/-!
# Where stars are put

The stars of a text are described twice: by the rewriting, which writes them between tokens, and by
their positions in the text.  `insertStars_eq_starsFrom` says that the rewritten text is the text
with one star in front of each of these positions, and `mem_starPositions_iff` that they are the
positions at which two operands meet.

Positions are counted along the tokens.  Since no token is empty, what stands behind a token has
greater positions than the token itself, so that each step concerns positions of its own.
-/

namespace FormulaCalc

namespace ImplicitProduct

/-- A star stands between two operands; the first may end and the second start with a bracket. -/
theorem needsStar_iff
    {before : Option Token.Kind} {kind : Token.Kind} :
    needsStar before kind = true ↔
      (before = some .number ∨ before = some .letter ∨ before = some .closing) ∧
        (kind = .number ∨ kind = .letter ∨ kind = .opening) := by
  cases before with
  | none =>
      simp [needsStar]
  | some previous =>
      simp [needsStar, joins, or_assoc]

/-- The text with one star in front of each of the given positions, counted from the given one. -/
def starsFrom (positions : List Nat) (start : Nat) (text : List Char) : List Char :=
  (text.zipIdx start).flatMap fun x => if x.2 ∈ positions then ['*', x.1] else [x.1]

/-- Whether two operands meet at a position of a text, one ending and the next starting there. -/
def MeetAt (table : VarTable) (text : List Char) (position : Nat) : Prop :=
  ∃ earlier first second later,
    Token.tokens table text = earlier ++ first :: second :: later ∧
    position = ((earlier ++ [first]).flatMap Token.text).length ∧
    (first.kind = .number ∨ first.kind = .letter ∨ first.kind = .closing) ∧
    (second.kind = .number ∨ second.kind = .letter ∨ second.kind = .opening)

section Positions

variable {table : VarTable} {before : Option Token.Kind} {position i : Nat} {tokens : List Token}

theorem ne_nil_of_mem_walk
    (flag : Bool) (text : List Char) :
    ∀ token ∈ (Token.walk table flag text).1, token.text ≠ [] := by
  fun_induction Token.walk table flag text with
  | case1 =>
      intro token htoken
      cases htoken
  | case2 flag text first rest hscan next ih =>
      intro token htoken
      rcases List.mem_cons.1 htoken with rfl | htoken
      · exact (Token.scan?_eq_some hscan).2
      · exact ih token htoken

theorem le_of_mem_positionsFrom
    (h : i ∈ positionsFrom before position tokens) :
    position ≤ i := by
  induction tokens generalizing before position with
  | nil =>
      cases h
  | cons token tokens ih =>
      rcases List.mem_append.1 h with h | h
      · split at h
        · exact Nat.le_of_eq (List.mem_singleton.1 h).symm
        · cases h
      · have hle := ih h
        omega

theorem positionsFrom_sorted
    (hne : ∀ token ∈ tokens, token.text ≠ []) :
    (positionsFrom before position tokens).Pairwise (· < ·) := by
  induction tokens generalizing before position with
  | nil =>
      exact .nil
  | cons token tokens ih =>
      obtain ⟨hfirst, hrest⟩ := List.forall_mem_cons.1 hne
      have hpos := List.length_pos_iff.2 hfirst
      refine List.pairwise_append.2 ⟨?_, ih hrest, fun i hi j hj => ?_⟩
      · split <;> simp
      · have hle := le_of_mem_positionsFrom hj
        split at hi
        · rw [List.mem_singleton.1 hi]
          omega
        · cases hi

/-- A token has a star in front if it meets the token before it. -/
theorem mem_positionsFrom_iff :
    i ∈ positionsFrom before position tokens ↔
      (∃ token later, tokens = token :: later ∧ needsStar before token.kind ∧ i = position) ∨
        ∃ earlier first second later,
          tokens = earlier ++ first :: second :: later ∧
          needsStar (some first.kind) second.kind ∧
          i = position + ((earlier ++ [first]).flatMap Token.text).length := by
  induction tokens generalizing before position with
  | nil =>
      simp [positionsFrom]
  | cons token tokens ih =>
      rw [positionsFrom, List.mem_append, ih]
      constructor
      · rintro (h | ⟨second, later, rfl, hstar, rfl⟩ |
          ⟨earlier, first, second, later, rfl, hstar, rfl⟩)
        · split at h
          · next hstar =>
              exact .inl ⟨token, tokens, rfl, hstar, List.mem_singleton.1 h⟩
          · cases h
        · exact .inr ⟨[], token, second, later, rfl, hstar, by simp⟩
        · refine .inr ⟨token :: earlier, first, second, later, rfl, hstar, ?_⟩
          rw [List.cons_append, List.flatMap_cons, List.length_append]
          omega
      · rintro (⟨first, later, heq, hstar, rfl⟩ |
          ⟨earlier, first, second, later, heq, hstar, rfl⟩)
        · obtain ⟨rfl, rfl⟩ := List.cons.inj heq
          rw [if_pos hstar]
          exact .inl List.mem_cons_self
        · refine .inr ?_
          cases earlier with
          | nil =>
              obtain ⟨rfl, rfl⟩ := List.cons.inj heq
              exact .inl ⟨second, later, rfl, hstar, by simp⟩
          | cons head earlier =>
              obtain ⟨rfl, rfl⟩ := List.cons.inj heq
              refine .inr ⟨earlier, first, second, later, rfl, hstar, ?_⟩
              rw [List.cons_append, List.flatMap_cons, List.length_append]
              omega

theorem mem_starPositions_iff
    {text : List Char} :
    i ∈ starPositions table text ↔ MeetAt table text i := by
  rw [starPositions, mem_positionsFrom_iff]
  constructor
  · rintro (⟨token, later, -, hstar, -⟩ | ⟨earlier, first, second, later, heq, hstar, rfl⟩)
    · cases hstar
    · obtain ⟨hfirst, hsecond⟩ := needsStar_iff.1 hstar
      exact ⟨earlier, first, second, later, heq, Nat.zero_add _, by simpa using hfirst, hsecond⟩
  · rintro ⟨earlier, first, second, later, heq, rfl, hfirst, hsecond⟩
    have hstar : needsStar (some first.kind) second.kind = true :=
      needsStar_iff.2 ⟨by simpa using hfirst, hsecond⟩
    exact .inr ⟨earlier, first, second, later, heq, hstar, (Nat.zero_add _).symm⟩

theorem starPositions_sorted
    (table : VarTable) (text : List Char) :
    (starPositions table text).Pairwise (· < ·) := by
  exact positionsFrom_sorted (ne_nil_of_mem_walk true text)

end Positions

section Stars

variable {tokens : List Token}

theorem starsFrom_cons
    (positions : List Nat) (start : Nat) (c : Char) (text : List Char) :
    starsFrom positions start (c :: text) =
      (if start ∈ positions then ['*', c] else [c]) ++ starsFrom positions (start + 1) text := by
  rfl

theorem starsFrom_append
    (positions : List Nat) (start : Nat) (u v : List Char) :
    starsFrom positions start (u ++ v) =
      starsFrom positions start u ++ starsFrom positions (start + u.length) v := by
  rw [starsFrom, List.zipIdx_append, List.flatMap_append]
  rfl

/-- Only the positions of the text count. -/
theorem starsFrom_congr
    {positions positions' : List Nat} {start : Nat} {text : List Char}
    (h : ∀ i, start ≤ i → i < start + text.length → (i ∈ positions ↔ i ∈ positions')) :
    starsFrom positions start text = starsFrom positions' start text := by
  induction text generalizing start with
  | nil =>
      rfl
  | cons c text ih =>
      rw [List.length_cons] at h
      have hhead := h start (Nat.le_refl _) (by omega)
      have htail : starsFrom positions (start + 1) text = starsFrom positions' (start + 1) text :=
        ih fun i hle hlt => h i (by omega) (by omega)
      simp only [starsFrom_cons, hhead, htail]

theorem starsFrom_nil
    (start : Nat) (text : List Char) :
    starsFrom [] start text = text := by
  induction text generalizing start with
  | nil =>
      rfl
  | cons c text ih =>
      rw [starsFrom_cons, ih]
      rfl

/-- A star in front of the first character alone. -/
theorem starsFrom_singleton
    {text : List Char}
    (start : Nat)
    (hne : text ≠ []) :
    starsFrom [start] start text = '*' :: text := by
  obtain ⟨c, text, rfl⟩ := List.exists_cons_of_ne_nil hne
  have htail : starsFrom [start] (start + 1) text = starsFrom [] (start + 1) text := by
    refine starsFrom_congr fun i hle _ => ?_
    rw [List.mem_singleton, iff_false_right List.not_mem_nil]
    omega
  rw [starsFrom_cons, htail, starsFrom_nil, if_pos List.mem_cons_self]
  rfl

/-- **The rewriting puts one star in front of each of its positions.** -/
theorem writeTokens_eq_starsFrom
    (before : Option Token.Kind) (position : Nat) (rest : List Char)
    (hne : ∀ token ∈ tokens, token.text ≠ []) :
    writeTokens before tokens ++ rest =
      starsFrom (positionsFrom before position tokens) position
        (tokens.flatMap Token.text ++ rest) := by
  induction tokens generalizing before position with
  | nil =>
      exact (starsFrom_nil position rest).symm
  | cons token tokens ih =>
      obtain ⟨hfirst, hrest⟩ := List.forall_mem_cons.1 hne
      have hpos := List.length_pos_iff.2 hfirst
      have hhead : starsFrom (positionsFrom before position (token :: tokens)) position token.text =
          starsFrom (if needsStar before token.kind then [position] else []) position
            token.text := by
        refine starsFrom_congr fun i _ hlt => ?_
        rw [positionsFrom, List.mem_append, or_iff_left]
        intro hmem
        have hle := le_of_mem_positionsFrom hmem
        omega
      have hstar : starsFrom (if needsStar before token.kind then [position] else []) position
          token.text = (if needsStar before token.kind then ['*'] else []) ++ token.text := by
        split
        · exact starsFrom_singleton position hfirst
        · exact starsFrom_nil position token.text
      have htail : starsFrom (positionsFrom before position (token :: tokens))
          (position + token.text.length) (tokens.flatMap Token.text ++ rest) =
            writeTokens (some token.kind) tokens ++ rest := by
        rw [ih _ _ hrest]
        refine starsFrom_congr fun i hle _ => ?_
        rw [positionsFrom, List.mem_append, or_iff_right]
        intro hmem
        split at hmem
        · rw [List.mem_singleton.1 hmem] at hle
          omega
        · cases hmem
      rw [List.flatMap_cons, List.append_assoc, starsFrom_append, hhead, hstar, htail, writeTokens,
        List.append_assoc]

theorem insertStars_eq_starsFrom
    (table : VarTable) (text : List Char) :
    insertStars table text = starsFrom (starPositions table text) 0 text := by
  have hne : ∀ token ∈ Token.tokens table text, token.text ≠ [] := ne_nil_of_mem_walk true text
  have hwrite := writeTokens_eq_starsFrom none 0 (Token.unread table text) hne
  rw [Token.flatMap_tokens] at hwrite
  exact hwrite

end Stars

end ImplicitProduct

end FormulaCalc
