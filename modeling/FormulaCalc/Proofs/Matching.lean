import FormulaCalc.Brackets
/-!
# What the table of partners says

The partners of a text are computed once, from the right, with the closing brackets that are still
free.  This module connects that table with balanced words: the partner of an opening bracket is
the closing bracket behind the balanced word that follows it, and there is no other.

Words are located by `StandsAt`, so that a word inside a text can be cut and joined without
mentioning what surrounds it.  The main statement is `closing?_eq_some_iff_balanced`.
-/

namespace FormulaCalc

section Places

/-- The text has the word `w` at position `i`. -/
def StandsAt (text : List Char) (i : Nat) (w : List Char) : Prop :=
  w <+: text.drop i

variable {text : List Char}

theorem standsAt_zero
    (text : List Char) :
    StandsAt text 0 text := by
  exact List.prefix_rfl

theorem standsAt_append_iff
    {i : Nat} {u v : List Char} :
    StandsAt text i (u ++ v) ↔
      StandsAt text i u ∧ StandsAt text (i + u.length) v := by
  constructor
  · rintro ⟨rest, hrest⟩
    refine ⟨⟨v ++ rest, by simpa using hrest⟩, ⟨rest, ?_⟩⟩
    rw [← List.drop_drop, ← hrest]
    simp
  · rintro ⟨⟨behind, hbehind⟩, ⟨rest, hrest⟩⟩
    refine ⟨rest, ?_⟩
    rw [← List.drop_drop, ← hbehind, List.drop_left] at hrest
    rw [List.append_assoc, hrest, hbehind]

theorem standsAt_singleton_iff
    {i : Nat} {c : Char} :
    StandsAt text i [c] ↔ text[i]? = some c := by
  rw [← List.head?_drop]
  constructor
  · rintro ⟨rest, hrest⟩
    rw [← hrest]
    rfl
  · intro hhead
    obtain ⟨rest, hrest⟩ := List.head?_eq_some_iff.1 hhead
    exact ⟨rest, hrest.symm⟩

theorem standsAt_cons_iff
    {i : Nat} {c : Char} {w : List Char} :
    StandsAt text i (c :: w) ↔
      text[i]? = some c ∧ StandsAt text (i + 1) w := by
  rw [← List.singleton_append, standsAt_append_iff,
    standsAt_singleton_iff, List.length_singleton]

/-- Two words with a character between them. -/
theorem standsAt_chain_iff
    {i : Nat} {u v : List Char} {c : Char} :
    StandsAt text i (u ++ c :: v) ↔
      StandsAt text i u ∧
        text[i + u.length]? = some c ∧
        StandsAt text (i + u.length + 1) v := by
  rw [standsAt_append_iff, standsAt_cons_iff]

theorem standsAt_bracketed_iff
    {i : Nat} {w : List Char} :
    StandsAt text i ('(' :: w ++ [')']) ↔
      text[i]? = some '(' ∧
        StandsAt text (i + 1) w ∧
        text[i + 1 + w.length]? = some ')' := by
  rw [List.cons_append, standsAt_cons_iff, standsAt_append_iff, standsAt_singleton_iff]

/-- A group with a word behind it. -/
theorem standsAt_group_iff
    {i : Nat} {u w : List Char} :
    StandsAt text i ('(' :: u ++ ')' :: w) ↔
      StandsAt text i ('(' :: u ++ [')']) ∧ StandsAt text (i + 1 + u.length + 1) w := by
  rw [standsAt_bracketed_iff, List.cons_append, standsAt_cons_iff, standsAt_chain_iff,
    and_assoc, and_assoc]

theorem length_chain
    (u v : List Char) (c : Char) :
    (u ++ c :: v).length = u.length + 1 + v.length := by
  rw [List.length_append, List.length_cons]
  omega

theorem length_bracketed
    (w : List Char) :
    ('(' :: w ++ [')']).length = 1 + w.length + 1 := by
  rw [List.length_append, List.length_cons, List.length_singleton, Nat.add_comm w.length]

theorem length_group
    (u w : List Char) :
    ('(' :: u ++ ')' :: w).length = 1 + u.length + 1 + w.length := by
  rw [length_chain, List.length_cons, Nat.add_comm u.length]

theorem bracketed_append
    (w rest : List Char) :
    '(' :: w ++ [')'] ++ rest = '(' :: (w ++ ')' :: rest) := by
  rw [List.cons_append, List.cons_append, List.append_assoc, List.singleton_append]

theorem eq_of_standsAt
    {i : Nat} {u w : List Char}
    (hu : StandsAt text i u)
    (hw : StandsAt text i w)
    (hlength : u.length = w.length) :
    u = w := by
  exact (List.prefix_of_prefix_length_le hu hw (Nat.le_of_eq hlength)).eq_of_length hlength

theorem BracketedText.length_slice
    {start stop : Nat}
    (hle : start ≤ stop)
    (hlength : stop ≤ text.length) :
    start + ((BracketedText.ofText text).slice start stop).length = stop := by
  simp only [slice, ofText, List.extract_toArray, List.extract_eq_take_drop, List.length_take,
    List.length_drop]
  omega

theorem BracketedText.standsAt_slice
    (text : List Char) (start stop : Nat) :
    StandsAt text start ((BracketedText.ofText text).slice start stop) := by
  simp only [slice, ofText, List.extract_toArray, List.extract_eq_take_drop]
  exact List.take_prefix _ _

/-- A slice holds the word that stands at its start and has its length. -/
theorem BracketedText.slice_of_standsAt
    {i : Nat} {w : List Char}
    (h : StandsAt text i w) :
    (BracketedText.ofText text).slice i (i + w.length) = w := by
  rw [BracketedText.slice, BracketedText.ofText]
  simp only [List.extract_toArray, List.extract_eq_take_drop]
  rw [Nat.add_sub_cancel_left]
  exact (List.prefix_iff_eq_take.1 h).symm

/-- A word with a character at a place inside it. -/
theorem exists_split_of_standsAt
    {i position : Nat} {w : List Char} {c : Char}
    (hstands : StandsAt text i w)
    (hchar : text[position]? = some c)
    (hle : i ≤ position)
    (hlt : position < i + w.length) :
    ∃ u v, w = u ++ c :: v ∧ position = i + u.length := by
  obtain ⟨k, rfl⟩ := Nat.exists_eq_add_of_le hle
  have hk : k < w.length := by
    omega
  have hw : w = w.take k ++ w[k] :: w.drop (k + 1) := by
    rw [List.getElem_cons_drop, List.take_append_drop]
  have hlength : (w.take k).length = k := by
    rw [List.length_take]
    omega
  refine ⟨w.take k, w.drop (k + 1), ?_, by rw [hlength]⟩
  rw [hw] at hstands
  have hfound := (standsAt_cons_iff.1 (standsAt_append_iff.1 hstands).2).1
  rw [hlength, hchar] at hfound
  rw [Option.some.inj hfound]
  exact hw

end Places

/-- Words in which every bracket has its partner. -/
inductive Balanced : List Char → Prop
  | nil : Balanced []
  | plain {c : Char} {w : List Char} :
      c ≠ '(' → c ≠ ')' →
      Balanced w →
      Balanced (c :: w)
  | group {u w : List Char} :
      Balanced u →
      Balanced w →
      Balanced ('(' :: u ++ ')' :: w)

namespace Balanced

theorem append
    {u w : List Char}
    (hu : Balanced u)
    (hw : Balanced w) :
    Balanced (u ++ w) := by
  induction hu with
  | nil =>
      exact hw
  | plain hopen hclose _ ih =>
      exact .plain hopen hclose ih
  | group hinner _ _ ih =>
      simpa using group hinner ih

theorem bracketed
    {w : List Char}
    (h : Balanced w) :
    Balanced ('(' :: w ++ [')']) := by
  exact .group h .nil

theorem of_plain
    {w : List Char}
    (h : ∀ c ∈ w, c ≠ '(' ∧ c ≠ ')') :
    Balanced w := by
  induction w with
  | nil =>
      exact .nil
  | cons c w ih =>
      obtain ⟨hopen, hclose⟩ := h c List.mem_cons_self
      exact .plain hopen hclose
        (ih fun d hd => h d (List.mem_cons_of_mem c hd))

end Balanced

section Partners

theorem partners_open
    (position : Nat) (rest : List Char) :
    partners position ('(' :: rest) =
      ((partners (position + 1) rest).2.head? :: (partners (position + 1) rest).1,
        (partners (position + 1) rest).2.tail) := by
  simp only [partners]
  obtain ⟨table, pending⟩ := partners (position + 1) rest
  cases pending <;> rfl

theorem partners_close
    (position : Nat) (rest : List Char) :
    partners position (')' :: rest) =
      (none :: (partners (position + 1) rest).1,
        position :: (partners (position + 1) rest).2) := by
  simp only [partners]

theorem partners_plain
    (position : Nat) {c : Char} (rest : List Char)
    (hopen : c ≠ '(') (hclose : c ≠ ')') :
    partners position (c :: rest) =
      (none :: (partners (position + 1) rest).1,
        (partners (position + 1) rest).2) := by
  simp only [partners]
  split
  · exact absurd rfl hopen
  · exact absurd rfl hclose
  · next heq =>
      rw [heq]

/-- Entries for the end of a text do not depend on what stands before it. -/
theorem partners_drop
    (position i : Nat) (text : List Char) :
    (partners position text).1.drop i =
      (partners (position + i) (text.drop i)).1 := by
  induction i generalizing position text with
  | zero =>
      rfl
  | succ i ih =>
      cases text with
      | nil =>
          rfl
      | cons c rest =>
          have htail :
              (partners position (c :: rest)).1.tail =
                (partners (position + 1) rest).1 := by
            by_cases hopen : c = '('
            · rw [hopen, partners_open, List.tail_cons]
            · by_cases hclose : c = ')'
              · rw [hclose, partners_close, List.tail_cons]
              · rw [partners_plain _ _ hopen hclose, List.tail_cons]
          rw [← List.drop_tail, htail, ih, List.drop_succ_cons,
            Nat.add_right_comm, Nat.add_assoc]

/-- A balanced word neither closes brackets before it nor leaves brackets for those behind it. -/
theorem partners_pending_append
    {w : List Char}
    (h : Balanced w)
    (position : Nat) (rest : List Char) :
    (partners position (w ++ rest)).2 =
      (partners (position + w.length) rest).2 := by
  induction h generalizing position rest with
  | nil =>
      rfl
  | @plain c w hopen hclose _ ih =>
      rw [List.cons_append, partners_plain _ _ hopen hclose, ih,
        List.length_cons, Nat.add_right_comm, Nat.add_assoc]
  | @group u w _ _ ihu ihw =>
      have hassoc :
          '(' :: u ++ ')' :: w ++ rest = '(' :: (u ++ ')' :: (w ++ rest)) := by
        simp
      rw [hassoc, partners_open, ihu, partners_close, List.tail_cons, ihw, length_chain,
        List.length_cons]
      congr 2
      omega

/-- The first free closing bracket of a text stands behind a balanced word. -/
theorem exists_balanced_of_pending
    {position closing : Nat} {text : List Char} {pending : List Nat}
    (h : (partners position text).2 = closing :: pending) :
    ∃ u rest,
      text = u ++ ')' :: rest ∧
      Balanced u ∧
      closing = position + u.length ∧
      (partners (closing + 1) rest).2 = pending := by
  match text with
  | [] =>
      simp [partners] at h
  | c :: tail =>
      by_cases hopen : c = '('
      · -- the bracket takes the first free one of the tail; the next one is ours
        rw [hopen, partners_open] at h
        obtain ⟨inner, htail⟩ : ∃ inner, (partners (position + 1) tail).2 =
            inner :: closing :: pending := by
          cases hpending : (partners (position + 1) tail).2 with
          | nil =>
              simp [hpending] at h
          | cons inner others =>
              simp only [hpending, List.tail_cons] at h
              exact ⟨inner, by rw [h]⟩
        obtain ⟨u, behind, hu, hbalanced, hinner, hbehind⟩ :=
          exists_balanced_of_pending htail
        obtain ⟨v, rest, hv, hbalanced', hclosing, hrest⟩ :=
          exists_balanced_of_pending hbehind
        refine ⟨'(' :: u ++ ')' :: v, rest, ?_, .group hbalanced hbalanced', ?_, hrest⟩
        · rw [hopen, hu, hv]
          simp
        · simp only [List.length_append, List.length_cons]
          omega
      · by_cases hclose : c = ')'
        · rw [hclose, partners_close] at h
          obtain ⟨rfl, hrest⟩ := List.cons.inj h
          exact ⟨[], tail, by rw [hclose]; rfl, .nil, rfl, hrest⟩
        · rw [partners_plain _ _ hopen hclose] at h
          obtain ⟨u, rest, hu, hbalanced, hclosing, hrest⟩ :=
            exists_balanced_of_pending h
          refine ⟨c :: u, rest, ?_, .plain hopen hclose hbalanced, ?_, hrest⟩
          · rw [hu]
            rfl
          · rw [List.length_cons]
            omega
termination_by text.length
decreasing_by
  · simp
  · have := congrArg List.length hu
    simp only [List.length_append, List.length_cons] at this ⊢
    omega
  · simp

end Partners

namespace BracketedText

variable {text : List Char}

/-- A partner is looked up in the table of the text from the bracket on. -/
theorem closing?_ofText
    (text : List Char) (i : Nat) :
    (ofText text).closing? i = (partners i (text.drop i)).1.head?.join := by
  rw [closing?, ofText, List.getElem?_toArray, ← List.head?_drop, partners_drop, Nat.zero_add]

/--
The partner of an opening bracket is the closing bracket behind the balanced word that follows it.
-/
theorem closing?_eq_some_iff_balanced
    {i j : Nat} :
    (ofText text).closing? i = some j ↔
      ∃ u, Balanced u ∧ j = i + 1 + u.length ∧ StandsAt text i ('(' :: u ++ [')']) := by
  rw [closing?_ofText]
  constructor
  · intro h
    cases hdrop : text.drop i with
    | nil =>
        rw [hdrop] at h
        simp [partners] at h
    | cons c rest =>
        rw [hdrop] at h
        by_cases hopen : c = '('
        · rw [hopen, partners_open] at h
          have hfirst : (partners (i + 1) rest).2.head? = some j := by
            simpa using h
          obtain ⟨pending, hpending⟩ := List.head?_eq_some_iff.1 hfirst
          obtain ⟨u, behind, hrest, hbalanced, hj, -⟩ :=
            exists_balanced_of_pending hpending
          refine ⟨u, hbalanced, hj, behind, ?_⟩
          rw [hdrop, hopen, hrest, bracketed_append]
        · exfalso
          by_cases hclose : c = ')'
          · rw [hclose, partners_close] at h
            simp at h
          · rw [partners_plain _ _ hopen hclose] at h
            simp at h
  · rintro ⟨u, hbalanced, rfl, behind, hbehind⟩
    rw [← hbehind, bracketed_append, partners_open, partners_pending_append hbalanced,
      partners_close]
    rfl

/-- Only an opening bracket has a partner, which is a closing one. -/
theorem brackets_of_closing?
    {i j : Nat}
    (h : (ofText text).closing? i = some j) :
    text[i]? = some '(' ∧ text[j]? = some ')' := by
  obtain ⟨u, -, rfl, hstands⟩ := closing?_eq_some_iff_balanced.1 h
  obtain ⟨hfirst, -, hlast⟩ := standsAt_bracketed_iff.1 hstands
  exact ⟨hfirst, hlast⟩

theorem ne_of_closing?
    {i j k : Nat} {c : Char}
    (h : (ofText text).closing? k = some j)
    (hchar : text[i]? = some c)
    (hopen : c ≠ '(') :
    i ≠ k := by
  rintro rfl
  rw [(brackets_of_closing? h).1] at hchar
  exact hopen (Option.some.inj hchar).symm

/-- The partner of a bracket inside a balanced word lies inside it. -/
theorem closing?_lt_of_balanced
    {i j k : Nat} {w : List Char}
    (hbalanced : Balanced w)
    (hstands : StandsAt text i w)
    (hle : i ≤ k)
    (hlt : k < i + w.length)
    (h : (ofText text).closing? k = some j) :
    j < i + w.length := by
  induction hbalanced generalizing i with
  | nil =>
      rw [List.length_nil] at hlt
      omega
  | plain hopen _ _ ih =>
      obtain ⟨hfirst, hrest⟩ := standsAt_cons_iff.1 hstands
      have hne := ne_of_closing? h hfirst hopen
      rw [List.length_cons] at hlt ⊢
      have hj := ih hrest (by omega) (by omega)
      omega
  | @group u w hinner _ ihu ihw =>
      rw [length_group] at hlt ⊢
      obtain ⟨hgroup, hbehind⟩ := standsAt_group_iff.1 hstands
      obtain ⟨-, hinside, hlast⟩ := standsAt_bracketed_iff.1 hgroup
      have hclosing := closing?_eq_some_iff_balanced.2 ⟨u, hinner, rfl, hgroup⟩
      -- the bracket opens the group, stands in it, or stands behind it
      rcases Nat.lt_trichotomy k (i + 1 + u.length) with hk | rfl | hk
      · by_cases hki : k = i
        · rw [hki, hclosing] at h
          have hj := Option.some.inj h
          omega
        · have hj := ihu hinside (by omega) hk
          omega
      · rw [(brackets_of_closing? h).1] at hlast
        cases hlast
      · have hj := ihw hbehind (by omega) (by omega)
        omega

/-- Bracketed groups lie inside one another or side by side. -/
theorem closing?_lt_of_closing?
    {i j k l : Nat}
    (hj : (ofText text).closing? i = some j)
    (hl : (ofText text).closing? k = some l)
    (hle : i < k)
    (hlt : k < j) :
    l < j := by
  obtain ⟨u, hbalanced, rfl, hstands⟩ := closing?_eq_some_iff_balanced.1 hj
  obtain ⟨-, hinner, -⟩ := standsAt_bracketed_iff.1 hstands
  exact closing?_lt_of_balanced hbalanced hinner hle hlt hl

end BracketedText

end FormulaCalc
