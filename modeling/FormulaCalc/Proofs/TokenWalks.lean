import FormulaCalc.Proofs.KnownCharacters
import FormulaCalc.Proofs.Transparency
/-!
# Three walks along the tokens

A text is walked along three times: to list its tokens, to write its products, and to check that it
is well formed.  Each walk keeps a state of its own, reads off it whether a group starts at the next
token, and has its own reasons to stop.  A `Walker` is what they have in common, and `visits` are the
tokens it meets, with their positions.

All that matters for the tokens is whether the state says, behind each token, that a group starts
there exactly if the token is an opening bracket (`Walker.Follows`).  So the walks see the same
tokens until one of them stops (`Walker.visits_prefix`), and these tokens stand one behind the other
up to the first place where none starts (`tiles_tokens`).
-/

namespace FormulaCalc

open Validity ImplicitProduct

/-- A way to walk along the tokens of a text. -/
structure Walker (σ : Type) where
  /-- Whether a group starts at the next token. -/
  startsGroup : σ → Bool
  /-- The state behind a token, or nothing where the walk stops there. -/
  next? : σ → Token → Option σ

namespace Walker

/-- The walk that lists the tokens remembers whether a group starts. -/
def listing : Walker Bool where
  startsGroup flag := flag
  next? _ token := some (token.kind = .opening)

/-- The walk that writes products remembers the kind of the token before. -/
def rewriting : Walker (Option Token.Kind) where
  startsGroup before := atGroupStart before
  next? _ token := some (some token.kind)

/-- The walk that checks a text keeps a state and a depth, and stops where the text is refused. -/
def checking : Walker (State × Nat) where
  startsGroup place := place.1 = .start
  next? place token :=
    if place.1.admits token.kind then
      (depthAfter? place.2 token.kind).map fun depth => (State.after (some token.kind), depth)
    else none

variable {σ : Type}

/-- The tokens met on a walk along a text that starts at a position, with their positions. -/
def visits (walker : Walker σ) (table : VarTable) (state : σ) (position : Nat)
    (text : List Char) : List (Nat × Token) :=
  match _h : Token.scan? table (walker.startsGroup state) text with
  | none => []
  | some (token, rest) =>
    (position, token) ::
      match walker.next? state token with
      | some next => walker.visits table next (position + token.text.length) rest
      | none => []
termination_by text.length
decreasing_by exact Token.length_rest_lt (by assumption)

/-- Whether a walker takes a group to start behind opening brackets and nowhere else. -/
def Follows (walker : Walker σ) : Prop :=
  ∀ state token next, walker.next? state token = some next →
    walker.startsGroup next = decide (token.kind = .opening)

end Walker

/-- Tokens with their positions, the first one standing at the given position. -/
def placed (position : Nat) : List Token → List (Nat × Token)
  | [] => []
  | token :: rest => (position, token) :: placed (position + token.text.length) rest

/-- How far the tokens of a text reach. -/
def reached (table : VarTable) (text : List Char) : Nat :=
  ((Token.tokens table text).flatMap Token.text).length

/-- How many characters the scanner takes off a text; none where no token starts. -/
def scannedLength (table : VarTable) (atGroupStart : Bool) (text : List Char) : Nat :=
  ((Token.scan? table atGroupStart text).map fun found => found.1.text.length).getD 0

/--
Tokens that stand in a text one behind the other between two positions, each of them where the
scanner finds it.  At the second position no token starts, or the text ends.
-/
inductive Tiles (table : VarTable) (text : List Char) : Bool → Nat → List (Nat × Token) → Nat → Prop
  | stop {atGroupStart : Bool} {position : Nat} :
      Token.scan? table atGroupStart (text.drop position) = none →
      Tiles table text atGroupStart position [] position
  | token {atGroupStart : Bool} {position stop : Nat} {token : Token}
      {visits : List (Nat × Token)} :
      Token.scan? table atGroupStart (text.drop position) =
        some (token, text.drop (position + token.text.length)) →
      Tiles table text (token.kind = .opening) (position + token.text.length) visits stop →
      Tiles table text atGroupStart position ((position, token) :: visits) stop

section Scanner

variable {table : VarTable} {atGroupStart : Bool} {text : List Char}

theorem scannedLength_of_some
    {token : Token} {rest : List Char}
    (h : Token.scan? table atGroupStart text = some (token, rest)) :
    scannedLength table atGroupStart text = token.text.length := by
  simp [scannedLength, h]

theorem scannedLength_eq_zero_iff :
    scannedLength table atGroupStart text = 0 ↔ Token.scan? table atGroupStart text = none := by
  cases hscan : Token.scan? table atGroupStart text with
  | none =>
      simp [scannedLength, hscan]
  | some found =>
      obtain ⟨token, rest⟩ := found
      have hne := (Token.scan?_eq_some hscan).2
      simp [scannedLength_of_some hscan, hne]

/-- A token lies inside the text. -/
theorem scannedLength_le
    (table : VarTable) (atGroupStart : Bool) (text : List Char) :
    scannedLength table atGroupStart text ≤ text.length := by
  cases hscan : Token.scan? table atGroupStart text with
  | none =>
      simp [scannedLength, hscan]
  | some found =>
      obtain ⟨token, rest⟩ := found
      have htext := congrArg List.length (Token.scan?_eq_some hscan).1
      rw [List.length_append] at htext
      rw [scannedLength_of_some hscan]
      omega

end Scanner

namespace Walker

variable {σ : Type} {walker : Walker σ} {table : VarTable} {state : σ} {position : Nat}
variable {text rest : List Char} {token : Token}

theorem visits_of_none
    (hscan : Token.scan? table (walker.startsGroup state) text = none) :
    walker.visits table state position text = [] := by
  rw [visits]
  split
  · rfl
  · next hfound =>
      rw [hscan] at hfound
      cases hfound

theorem visits_of_some
    (hscan : Token.scan? table (walker.startsGroup state) text = some (token, rest)) :
    walker.visits table state position text =
      (position, token) ::
        match walker.next? state token with
        | some next => walker.visits table next (position + token.text.length) rest
        | none => [] := by
  rw [visits]
  split
  · next hnone =>
      rw [hscan] at hnone
      cases hnone
  · next found behind hfound =>
      rw [hscan] at hfound
      obtain ⟨rfl, rfl⟩ := Prod.mk.inj (Option.some.inj hfound)
      rfl

/-- **Whatever makes a walker stop, it meets the tokens of the text up to there.** -/
theorem visits_prefix
    (hfollows : walker.Follows)
    (table : VarTable) (state : σ) (position : Nat) (text : List Char) :
    walker.visits table state position text <+:
      placed position (Token.walk table (walker.startsGroup state) text).1 := by
  cases hscan : Token.scan? table (walker.startsGroup state) text with
  | none =>
      rw [visits_of_none hscan]
      exact List.nil_prefix
  | some found =>
      obtain ⟨token, rest⟩ := found
      have hshorter := Token.length_rest_lt hscan
      rw [visits_of_some hscan, walk_of_scan? hscan, placed]
      refine (List.prefix_cons_inj _).2 ?_
      cases hnext : walker.next? state token with
      | none =>
          exact List.nil_prefix
      | some next =>
          have ih := visits_prefix hfollows table next (position + token.text.length) rest
          rw [hfollows state token next hnext] at ih
          exact ih
termination_by text.length

/-- A walker that never stops of its own accord meets all tokens. -/
theorem visits_eq_placed
    (hfollows : walker.Follows)
    (hnext : ∀ state token, (walker.next? state token).isSome)
    (table : VarTable) (state : σ) (position : Nat) (text : List Char) :
    walker.visits table state position text =
      placed position (Token.walk table (walker.startsGroup state) text).1 := by
  cases hscan : Token.scan? table (walker.startsGroup state) text with
  | none =>
      rw [visits_of_none hscan, walk_of_none hscan]
      rfl
  | some found =>
      obtain ⟨token, rest⟩ := found
      have hshorter := Token.length_rest_lt hscan
      obtain ⟨next, hsome⟩ := Option.isSome_iff_exists.1 (hnext state token)
      have ih := visits_eq_placed hfollows hnext table next (position + token.text.length) rest
      rw [hfollows state token next hsome] at ih
      rw [visits_of_some hscan, walk_of_scan? hscan, placed, hsome]
      exact congrArg _ ih
termination_by text.length

theorem follows_listing :
    listing.Follows := by
  intro _ token next hnext
  exact (Option.some.inj hnext).symm

theorem follows_rewriting :
    rewriting.Follows := by
  intro _ token next hnext
  obtain rfl := Option.some.inj hnext
  rfl

theorem follows_checking :
    checking.Follows := by
  intro place token next hnext
  simp only [checking] at hnext
  split at hnext
  · obtain ⟨depth, -, rfl⟩ := Option.map_eq_some_iff.1 hnext
    exact stateBehind_eq_start_iff (some token.kind)
  · cases hnext

theorem visits_listing
    (table : VarTable) (text : List Char) :
    listing.visits table true 0 text = placed 0 (Token.tokens table text) := by
  exact visits_eq_placed follows_listing (fun _ _ => rfl) table true 0 text

theorem visits_rewriting
    (table : VarTable) (text : List Char) :
    rewriting.visits table none 0 text = placed 0 (Token.tokens table text) := by
  exact visits_eq_placed follows_rewriting (fun _ _ => rfl) table none 0 text

/-- The automaton reads the tokens that the checking walk meets. -/
theorem inspect_eq_visits
    (table : VarTable) (state : State) (depth position : Nat) (text : List Char) :
    (inspect table state depth text).1 =
      (checking.visits table (state, depth) position text).map Prod.snd := by
  rw [inspect]
  split
  · next hscan =>
      rw [visits_of_none hscan]
      rfl
  · next token rest hscan =>
      have hshorter := Token.length_rest_lt hscan
      rw [visits_of_some hscan, List.map_cons]
      cases hadmits : state.admits token.kind with
      | false =>
          simp [checking, hadmits]
      | true =>
          cases hdepth : depthAfter? depth token.kind with
          | none =>
              simp [checking, hadmits, hdepth]
          | some behind =>
              have ih := inspect_eq_visits table (State.after (some token.kind)) behind
                (position + token.text.length) rest
              simp [checking, hadmits, hdepth, ih]
termination_by text.length

/-- **The walk that checks an accepted text meets all its tokens, and they are the whole text.** -/
theorem visits_of_accepts
    {state : State} {depth : Nat} {text : List Char}
    (position : Nat)
    (h : accepts table state depth text = true) :
    checking.visits table (state, depth) position text =
        placed position (Token.walk table (state = .start) text).1 ∧
      (Token.walk table (state = .start) text).2 = [] := by
  rcases accepts_cases h with ⟨rfl, -, -⟩ | ⟨token, rest, behind, hscan, hadmits, hdepth, hrest⟩
  · rw [walk_of_none rfl, visits_of_none rfl]
    exact ⟨rfl, rfl⟩
  · have hshorter := Token.length_rest_lt hscan
    have hflag : decide (State.after (some token.kind) = .start) = decide (token.kind = .opening) :=
      stateBehind_eq_start_iff (some token.kind)
    obtain ⟨hvisits, hunread⟩ := visits_of_accepts (position + token.text.length) hrest
    rw [hflag] at hvisits hunread
    rw [visits_of_some hscan, walk_of_scan? hscan]
    refine ⟨?_, hunread⟩
    simp [checking, hadmits, hdepth, placed, ← hvisits]
termination_by text.length

end Walker

section Tokens

variable {table : VarTable} {text : List Char}

/-- The tokens read from a position on tile the text up to where reading stops. -/
theorem tiles_walk
    {atGroupStart : Bool} {rest : List Char} {position : Nat}
    (hrest : text.drop position = rest) :
    Tiles table text atGroupStart position (placed position (Token.walk table atGroupStart rest).1)
      (position + ((Token.walk table atGroupStart rest).1.flatMap Token.text).length) := by
  cases hscan : Token.scan? table atGroupStart rest with
  | none =>
      rw [walk_of_none hscan]
      exact .stop (by rw [hrest, hscan])
  | some found =>
      obtain ⟨token, behind⟩ := found
      have hshorter := Token.length_rest_lt hscan
      have hbehind : text.drop (position + token.text.length) = behind := by
        rw [← List.drop_drop, hrest, ← (Token.scan?_eq_some hscan).1, List.drop_left]
      have htail : Tiles table text (token.kind = .opening) (position + token.text.length)
          (placed (position + token.text.length)
            (Token.walk table (token.kind = .opening) behind).1) _ :=
        tiles_walk hbehind
      rw [Nat.add_assoc, ← List.length_append, ← List.flatMap_cons] at htail
      rw [walk_of_scan? hscan]
      exact .token (by rw [hbehind, hrest, hscan]) htail
termination_by rest.length

theorem tiles_tokens
    (table : VarTable) (text : List Char) :
    Tiles table text true 0 (placed 0 (Token.tokens table text)) (reached table text) := by
  have htiles : Tiles table text true 0 (placed 0 (Token.walk table true text).1) _ :=
    tiles_walk List.drop_zero
  rw [Nat.zero_add] at htiles
  exact htiles

theorem map_snd_placed
    (position : Nat) (tokens : List Token) :
    (placed position tokens).map Prod.snd = tokens := by
  induction tokens generalizing position with
  | nil =>
      rfl
  | cons token rest ih =>
      simp [placed, ih]

theorem length_le_of_tiles
    {atGroupStart : Bool} {position stop : Nat} {visits : List (Nat × Token)}
    (h : Tiles table text atGroupStart position visits stop) :
    position + visits.length ≤ stop := by
  induction h with
  | stop _ =>
      exact Nat.le_refl _
  | token hscan _ ih =>
      have hpos := List.length_pos_iff.2 (Token.scan?_eq_some hscan).2
      rw [List.length_cons]
      omega

theorem take_reached
    (table : VarTable) (text : List Char) :
    text.take (reached table text) = (Token.tokens table text).flatMap Token.text := by
  have htake : ((Token.tokens table text).flatMap Token.text ++ Token.unread table text).take
      (reached table text) = (Token.tokens table text).flatMap Token.text :=
    List.take_left
  rw [Token.flatMap_tokens] at htake
  exact htake

theorem drop_reached
    (table : VarTable) (text : List Char) :
    text.drop (reached table text) = Token.unread table text := by
  have hdrop : ((Token.tokens table text).flatMap Token.text ++ Token.unread table text).drop
      (reached table text) = Token.unread table text :=
    List.drop_left
  rw [Token.flatMap_tokens] at hdrop
  exact hdrop

theorem reached_le
    (table : VarTable) (text : List Char) :
    reached table text ≤ text.length := by
  have htext := congrArg List.length (Token.flatMap_tokens table text)
  rw [List.length_append] at htext
  rw [reached]
  omega

theorem unread_eq_nil_iff :
    Token.unread table text = [] ↔ reached table text = text.length := by
  have hle := reached_le table text
  rw [← drop_reached, List.drop_eq_nil_iff]
  omega

theorem pieces_eq
    (table : VarTable) (text : List Char) :
    Token.pieces table text =
      (Token.tokens table text).map Token.text ++
        if reached table text = text.length then [] else [['?']] := by
  simp only [Token.pieces, List.isEmpty_iff, unread_eq_nil_iff]

/-- **Put together, the listed pieces are the text up to the first place where no token starts.** -/
theorem flatten_pieces
    (table : VarTable) (text : List Char) :
    (Token.pieces table text).flatten =
      text.take (reached table text) ++
        if reached table text = text.length then [] else ['?'] := by
  rw [pieces_eq, List.flatten_append, take_reached, List.flatMap_def]
  split <;> rfl

/-- The same can be read off the listing itself, whose spaces only stand between pieces. -/
theorem flatten_splitOn_listing
    (table : VarTable) (text : List Char) :
    ((Token.listing table text).splitOn ' ').flatten =
      text.take (reached table text) ++
        if reached table text = text.length then [] else ['?'] := by
  rw [← flatten_pieces]
  by_cases hempty : text = []
  · subst hempty
    have hpieces : Token.pieces table [] = [] := by
      rw [Token.pieces, Token.tokens, Token.unread, walk_of_none rfl]
      rfl
    rw [Token.listing, hpieces]
    rfl
  · rw [splitOn_listing table hempty]

end Tokens

section Agreement

/-- How the walks along a text agree with one another, and how the tokens they meet tile the text. -/
structure WalksAgree (table : VarTable) (text : List Char) : Prop where
  /-- Wherever one looks, nothing is taken off exactly if no token starts there. -/
  scannedLength_eq_zero_iff : ∀ position atGroupStart,
    scannedLength table atGroupStart (text.drop position) = 0 ↔
      Token.scan? table atGroupStart (text.drop position) = none
  /-- No token reaches beyond the end of the text. -/
  scannedLength_le : ∀ position atGroupStart,
    scannedLength table atGroupStart (text.drop position) ≤ text.length - position
  rewriting_eq : Walker.rewriting.visits table none 0 text = Walker.listing.visits table true 0 text
  checking_prefix :
    Walker.checking.visits table (.start, 0) 0 text <+: Walker.listing.visits table true 0 text
  checking_eq : isValid table text = true →
    Walker.checking.visits table (.start, 0) 0 text = Walker.listing.visits table true 0 text ∧
      reached table text = text.length
  tiles : Tiles table text true 0 (Walker.listing.visits table true 0 text) (reached table text)
  /-- Every token takes a walk forward, and none takes it beyond the end of the text. -/
  length_le : (Walker.listing.visits table true 0 text).length ≤ reached table text ∧
    reached table text ≤ text.length
  /-- What is listed are the tokens of the listing walk, with a mark where it could not go on. -/
  pieces_eq : Token.pieces table text =
    (Walker.listing.visits table true 0 text).map (fun visit => visit.2.text) ++
      if reached table text = text.length then [] else [['?']]
  /-- The listing is these pieces with a space between any two of them. -/
  listing_eq : Token.listing table text = [' '].intercalate (Token.pieces table text)
  /-- A space stands nowhere else in it, so that the pieces can be read off the listing again. -/
  splitOn_listing : text ≠ [] →
    (Token.listing table text).splitOn ' ' = Token.pieces table text
  /-- What is written are the tokens of the rewriting walk, and all behind them as it is. -/
  insertStars_eq : insertStars table text =
    writeTokens none ((Walker.rewriting.visits table none 0 text).map Prod.snd) ++
      text.drop (reached table text)
  /-- What the automaton reads are the tokens of the checking walk. -/
  inspect_eq : (inspect table .start 0 text).1 =
    (Walker.checking.visits table (.start, 0) 0 text).map Prod.snd
  flatten_pieces : (Token.pieces table text).flatten =
    text.take (reached table text) ++ if reached table text = text.length then [] else ['?']
  flatten_listing : ((Token.listing table text).splitOn ' ').flatten =
    text.take (reached table text) ++ if reached table text = text.length then [] else ['?']

/--
The walks that list, rewrite and check a text meet the same tokens at the same positions, the last
of them up to where it refuses the text, and all of them where it accepts it.  These tokens tile the
text from its start to the first place where no token starts, which is its end or else is marked in
the listing.
-/
theorem walks_agree
    (table : VarTable) (text : List Char) :
    WalksAgree table text := by
  have hlisting := Walker.visits_listing table text
  have htiles := tiles_tokens table text
  have hlength := length_le_of_tiles htiles
  constructor
  case scannedLength_eq_zero_iff =>
    exact fun position atGroupStart => scannedLength_eq_zero_iff
  case scannedLength_le =>
    intro position atGroupStart
    rw [← List.length_drop]
    exact scannedLength_le table atGroupStart _
  case rewriting_eq =>
    rw [Walker.visits_rewriting, hlisting]
  case checking_prefix =>
    rw [hlisting]
    exact Walker.visits_prefix Walker.follows_checking table (.start, 0) 0 text
  case checking_eq =>
    intro hvalid
    obtain ⟨hvisits, hunread⟩ := Walker.visits_of_accepts 0 hvalid
    rw [hvisits, hlisting, ← unread_eq_nil_iff]
    exact ⟨rfl, hunread⟩
  case tiles =>
    rw [hlisting]
    exact htiles
  case length_le =>
    rw [hlisting]
    exact ⟨by omega, reached_le table text⟩
  case pieces_eq =>
    rw [pieces_eq, hlisting, ← Function.comp_def, ← List.map_map, map_snd_placed]
  case listing_eq =>
    rfl
  case splitOn_listing =>
    exact fun hne => FormulaCalc.splitOn_listing table hne
  case insertStars_eq =>
    rw [Walker.visits_rewriting, map_snd_placed, drop_reached, insertStars]
  case inspect_eq =>
    exact Walker.inspect_eq_visits table .start 0 0 text
  case flatten_pieces =>
    exact flatten_pieces table text
  case flatten_listing =>
    exact flatten_splitOn_listing table text

end Agreement

end FormulaCalc
