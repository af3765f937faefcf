import ConditionalAssembly.Token.Group

/-!
# How tokens are arranged

Only the tokens that open a group begin one, a closing parenthesis ends it and
commas divide it.  A sequence of tokens in which every group is closed stays
together when it is arranged in front of other tokens.
-/

namespace ConditionalAssembly

/-! ## Groups and the tokens around them -/

/-- The token neither opens nor closes a group nor divides one. -/
def Token.IsPlain (token : Token) : Prop :=
  token ∉ [.openParen, .createdName, .closeParen, .comma]

theorem Token.isPlain_or (token : Token) :
    token.IsPlain ∨ (token = .openParen ∨ token = .createdName) ∨ token = .closeParen ∨
      token = .comma := by
  by_cases plain : token.IsPlain
  · exact .inl plain
  · right
    simpa [IsPlain, or_assoc, -not_or] using Decidable.not_not.mp plain

mutual

/-- Groups in a run begin with a token that opens one, and other tokens are plain. -/
def Run.Proper : Run → Prop
  | .nil => True
  | .token placed rest => placed.token.IsPlain ∧ rest.Proper
  | .group opener contents rest =>
      (opener.token = .openParen ∨ opener.token = .createdName) ∧ contents.Proper ∧ rest.Proper

/-- Runs are divided by commas and closed by parentheses, and they are proper. -/
def Contents.Proper : Contents → Prop
  | .last run close => run.Proper ∧ ∀ placed ∈ close, placed.token = .closeParen
  | .comma run placed rest => run.Proper ∧ placed.token = .comma ∧ rest.Proper

end

namespace Contents

/-- The parenthesis that closes a group. -/
def close? : Contents → Option PlacedToken
  | .last _ close => close
  | .comma _ _ rest => rest.close?

/-- The groups that tokens close are closed, and the source around them is not. -/
def Nested : Contents → List Contents → Prop
  | contents, [] => contents.close? = none
  | contents, after :: outer => contents.close?.isSome ∧ Nested after outer

theorem tokens_ne_nil {contents : Contents} (closed : contents.close?.isSome) :
    contents.tokens ≠ [] := by
  cases contents with
  | last run close =>
      obtain ⟨placed, rfl⟩ := Option.isSome_iff_exists.mp closed
      simp [tokens]
  | comma => simp [tokens]

/-- A closed group is void when nothing but its closing parenthesis is in it. -/
theorem isVoid_iff {contents : Contents} (closed : contents.close?.isSome) :
    contents.isVoid = true ↔ contents.tokens.length = 1 := by
  cases contents with
  | last run close =>
      obtain ⟨placed, rfl⟩ := Option.isSome_iff_exists.mp closed
      cases run <;> simp [isVoid, tokens, Run.tokens]
  | comma run placed rest =>
      have further : rest.tokens.length ≠ 0 := mt List.length_eq_zero_iff.mp (tokens_ne_nil closed)
      simp only [isVoid, tokens, List.length_append, List.length_cons]
      constructor
      · intro void
        cases void
      · intro single
        omega

@[simp]
theorem close?_prepend (piece : Run → Run) (contents : Contents) :
    (contents.prepend piece).close? = contents.close? := by
  cases contents <;> rfl

theorem nested_prepend (piece : Run → Run) {contents : Contents} {outer : List Contents} :
    Nested (contents.prepend piece) outer ↔ Nested contents outer := by
  cases outer <;> simp [Nested]

theorem proper_prepend_token {placed : PlacedToken} (plain : placed.token.IsPlain)
    {contents : Contents} (proper : contents.Proper) :
    (contents.prepend (.token placed)).Proper := by
  cases contents <;> exact ⟨⟨plain, proper.1⟩, proper.2⟩

theorem proper_prepend_group {opener : PlacedToken} {inner contents : Contents}
    (opens : opener.token = .openParen ∨ opener.token = .createdName) (innerProper : inner.Proper)
    (proper : contents.Proper) : (contents.prepend (.group opener inner)).Proper := by
  cases contents <;> exact ⟨⟨opens, innerProper, proper.1⟩, proper.2⟩

/-! ## One token in front of others -/

section

variable {placed : PlacedToken} {rest : List PlacedToken} {contents after : Contents}
  {outer : List Contents}

theorem arrange_plain (plain : placed.token.IsPlain) (arranged : arrange rest = (contents, outer)) :
    arrange (placed :: rest) = (contents.prepend (.token placed), outer) := by
  simp only [arrange, arranged]
  split
  case h_5 => rfl
  all_goals
    next token => simp [Token.IsPlain, token] at plain

theorem arrange_comma (divides : placed.token = .comma)
    (arranged : arrange rest = (contents, outer)) :
    arrange (placed :: rest) = (.comma .nil placed contents, outer) := by
  simp only [arrange, arranged, divides]

theorem arrange_close (closes : placed.token = .closeParen)
    (arranged : arrange rest = (contents, outer)) :
    arrange (placed :: rest) = (.last .nil (some placed), contents :: outer) := by
  simp only [arrange, arranged, closes]

theorem arrange_open (opens : placed.token = .openParen ∨ placed.token = .createdName)
    (arranged : arrange rest = (contents, after :: outer)) :
    arrange (placed :: rest) = (after.prepend (.group placed contents), outer) := by
  rcases opens with token | token <;> simp only [arrange, arranged, token]

theorem arrange_open_unclosed (opens : placed.token = .openParen ∨ placed.token = .createdName)
    (arranged : arrange rest = (contents, [])) :
    arrange (placed :: rest) = (.last (.group placed contents .nil) none, []) := by
  rcases opens with token | token <;> simp only [arrange, arranged, token]

end

/-! ## Arranged groups are proper -/

/-- Every parenthesis and comma ends up where the arrangement calls for one. -/
theorem proper_arrange (tokens : List PlacedToken) :
    (arrange tokens).1.Proper ∧ ∀ contents ∈ (arrange tokens).2, contents.Proper := by
  induction tokens with
  | nil => exact ⟨⟨trivial, nofun⟩, nofun⟩
  | cons placed rest ih =>
      generalize arranged : arrange rest = arrangement at ih
      obtain ⟨contents, outer⟩ := arrangement
      obtain ⟨proper, properOuter⟩ := ih
      rcases placed.token.isPlain_or with plain | opens | closes | divides
      · rw [arrange_plain plain arranged]
        exact ⟨proper_prepend_token plain proper, properOuter⟩
      · cases outer with
        | nil =>
            rw [arrange_open_unclosed opens arranged]
            exact ⟨⟨⟨opens, proper, trivial⟩, nofun⟩, nofun⟩
        | cons after outer =>
            obtain ⟨properAfter, properOuter⟩ := List.forall_mem_cons.mp properOuter
            rw [arrange_open opens arranged]
            exact ⟨proper_prepend_group opens proper properAfter, properOuter⟩
      · rw [arrange_close closes arranged]
        have closed : ∀ close ∈ some placed, close.token = .closeParen := by
          rintro _ ⟨⟩
          exact closes
        exact ⟨⟨trivial, closed⟩, List.forall_mem_cons.mpr ⟨proper, properOuter⟩⟩
      · rw [arrange_comma divides arranged]
        exact ⟨⟨trivial, divides, proper⟩, properOuter⟩

/-- The groups that are closed are those that a parenthesis closes. -/
theorem nested_arrange (tokens : List PlacedToken) :
    Nested (arrange tokens).1 (arrange tokens).2 := by
  induction tokens with
  | nil => rfl
  | cons placed rest ih =>
      generalize arranged : arrange rest = arrangement at ih
      obtain ⟨contents, outer⟩ := arrangement
      rcases placed.token.isPlain_or with plain | opens | closes | divides
      · rw [arrange_plain plain arranged]
        exact (nested_prepend _).mpr ih
      · cases outer with
        | nil =>
            rw [arrange_open_unclosed opens arranged]
            rfl
        | cons after outer =>
            rw [arrange_open opens arranged]
            exact (nested_prepend _).mpr ih.2
      · rw [arrange_close closes arranged]
        exact ⟨rfl, ih⟩
      · rw [arrange_comma divides arranged]
        cases outer <;> exact ih

/-- Contents that no parenthesis closes hold all the tokens. -/
theorem tokens_ofTokens {tokens : List PlacedToken} (unclosed : (ofTokens tokens).close? = none) :
    (ofTokens tokens).tokens = tokens := by
  have nested := nested_arrange tokens
  have whole := tokens_arrange tokens
  cases outer : (arrange tokens).2 with
  | nil => simpa [ofTokens, outer] using whole
  | cons after outer' =>
      rw [outer] at nested
      have closed : (ofTokens tokens).close?.isSome := nested.1
      simp [unclosed] at closed

/-! ## Sequences that stay together -/

/-- The tokens are a piece of a run, whatever follows them. -/
structure Composes (tokens : List PlacedToken) (piece : Run → Run) : Prop where
  arranged : ∀ rest, arrange (tokens ++ rest) =
    ((arrange rest).1.prepend piece, (arrange rest).2)
  tokens_eq : ∀ run, (piece run).tokens = tokens ++ run.tokens

/-- The tokens are all there is inside a group, with the parenthesis that closes it. -/
structure Encloses (tokens : List PlacedToken) (contents : Contents) : Prop where
  arranged : ∀ rest, arrange (tokens ++ rest) = (contents, (arrange rest).1 :: (arrange rest).2)
  tokens_eq : contents.tokens = tokens

theorem prepend_prepend (first second : Run → Run) (contents : Contents) :
    (contents.prepend second).prepend first = contents.prepend fun run => first (second run) := by
  cases contents <;> rfl

theorem composes_nil : Composes [] fun run => run where
  arranged rest := by
    have same (contents : Contents) : contents.prepend (fun run => run) = contents := by
      cases contents <;> rfl
    simp [same]
  tokens_eq _ := rfl

theorem Composes.append {firstTokens secondTokens : List PlacedToken} {first second : Run → Run}
    (one : Composes firstTokens first) (two : Composes secondTokens second) :
    Composes (firstTokens ++ secondTokens) fun run => first (second run) where
  arranged rest := by
    rw [List.append_assoc, one.arranged, two.arranged, prepend_prepend]
  tokens_eq run := by
    rw [one.tokens_eq, two.tokens_eq, List.append_assoc]

theorem composes_token {placed : PlacedToken} (plain : placed.token.IsPlain) :
    Composes [placed] (.token placed) where
  arranged _ := arrange_plain plain rfl
  tokens_eq _ := rfl

theorem composes_group {opener : PlacedToken} {inner : List PlacedToken} {contents : Contents}
    (opens : opener.token = .openParen ∨ opener.token = .createdName)
    (enclosed : Encloses inner contents) : Composes (opener :: inner) (.group opener contents) where
  arranged rest := arrange_open opens (enclosed.arranged rest)
  tokens_eq run := by
    rw [Run.tokens, enclosed.tokens_eq, List.cons_append]

theorem Composes.closed {tokens : List PlacedToken} {piece : Run → Run}
    (composed : Composes tokens piece) {close : PlacedToken} (closes : close.token = .closeParen) :
    Encloses (tokens ++ [close]) (.last (piece .nil) (some close)) where
  arranged rest := by
    rw [List.append_assoc, composed.arranged, List.singleton_append, arrange_close closes rfl]
    rfl
  tokens_eq := by
    rw [Contents.tokens, composed.tokens_eq, Run.tokens, List.append_nil, Option.toList]

theorem Composes.divided {tokens inner : List PlacedToken} {piece : Run → Run}
    (composed : Composes tokens piece) {comma : PlacedToken} (divides : comma.token = .comma)
    {contents : Contents} (enclosed : Encloses inner contents) :
    Encloses (tokens ++ comma :: inner) (.comma (piece .nil) comma contents) where
  arranged rest := by
    rw [List.append_assoc, composed.arranged, List.cons_append,
      arrange_comma divides (enclosed.arranged rest)]
    rfl
  tokens_eq := by
    rw [Contents.tokens, composed.tokens_eq, Run.tokens, List.append_nil, enclosed.tokens_eq]

/-- What is enclosed is closed. -/
theorem Encloses.isSome_close? {tokens : List PlacedToken} {contents : Contents}
    (enclosed : Encloses tokens contents) : contents.close?.isSome := by
  have nested := nested_arrange (tokens ++ [])
  rw [enclosed.arranged] at nested
  exact nested.1

theorem Composes.ofTokens_eq {tokens : List PlacedToken} {piece : Run → Run}
    (composed : Composes tokens piece) : ofTokens tokens = .last (piece .nil) none := by
  have alone := composed.arranged []
  rw [List.append_nil] at alone
  rw [ofTokens, alone]
  rfl

end Contents

end ConditionalAssembly
