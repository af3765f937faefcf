import ConditionalAssembly.Token

/-!
# Grouped tokens

Parentheses and commas give a sequence of tokens its structure: an opening
token begins a group that reaches to its closing parenthesis, and commas cut
the contents of a group into runs.  The whole source counts as the contents of
a group that is never closed.

Grouping keeps every token in its place.
-/

namespace ConditionalAssembly

mutual

/-- Tokens and groups with no comma between them. -/
inductive Run where
  | nil
  | token (placed : PlacedToken) (rest : Run)
  | group (opener : PlacedToken) (contents : Contents) (rest : Run)

/-- The runs of a group between commas, and the parenthesis that closes it, if any does. -/
inductive Contents where
  | last (run : Run) (close : Option PlacedToken)
  | comma (run : Run) (placed : PlacedToken) (rest : Contents)

end

mutual

/-- The tokens of a run, those of its groups included. -/
def Run.tokens : Run → List PlacedToken
  | .nil => []
  | .token placed rest => placed :: rest.tokens
  | .group opener contents rest => opener :: (contents.tokens ++ rest.tokens)

/-- The tokens of the contents of a group and the parenthesis that closes it. -/
def Contents.tokens : Contents → List PlacedToken
  | .last run close => run.tokens ++ close.toList
  | .comma run placed rest => run.tokens ++ placed :: rest.tokens

end

namespace Contents

/-- The contents with a piece put in front of the first run. -/
def prepend (piece : Run → Run) : Contents → Contents
  | .last run close => .last (piece run) close
  | .comma run placed rest => .comma (piece run) placed rest

/-- Nothing stands between the parentheses. -/
def isVoid : Contents → Bool
  | .last .nil (some _) => true
  | _ => false

/-- The contents behind an asterisk that begins them. -/
def afterStar? : Contents → Option Contents
  | .last (.token placed rest) close =>
      if placed.token = .star then some (.last rest close) else none
  | .comma (.token placed rest) separator more =>
      if placed.token = .star then some (.comma rest separator more) else none
  | _ => none

/-- The groups of a sequence of tokens: the contents up to the first parenthesis
that closes no group among them, and what follows that and every further such
parenthesis. -/
def arrange : List PlacedToken → Contents × List Contents
  | [] => (.last .nil none, [])
  | placed :: rest =>
      let (contents, outer) := arrange rest
      match placed.token with
      | .closeParen => (.last .nil (some placed), contents :: outer)
      | .comma => (.comma .nil placed contents, outer)
      | .openParen | .createdName =>
          match outer with
          | [] => (.last (.group placed contents .nil) none, [])
          | after :: outer => (after.prepend (.group placed contents), outer)
      | _ => (contents.prepend (.token placed), outer)

/-- The contents of a source text made of some tokens. -/
def ofTokens (tokens : List PlacedToken) : Contents :=
  (arrange tokens).1

/-! ## Grouping keeps every token -/

theorem tokens_prepend_token (placed : PlacedToken) (contents : Contents) :
    (contents.prepend (.token placed)).tokens = placed :: contents.tokens := by
  cases contents <;> rfl

theorem tokens_prepend_group (opener : PlacedToken) (inner contents : Contents) :
    (contents.prepend (.group opener inner)).tokens =
      opener :: (inner.tokens ++ contents.tokens) := by
  cases contents <;> simp [prepend, tokens, Run.tokens]

/-- Grouping keeps every token in its place. -/
theorem tokens_arrange (tokens : List PlacedToken) :
    (arrange tokens).1.tokens ++ (arrange tokens).2.flatMap Contents.tokens = tokens := by
  induction tokens with
  | nil => rfl
  | cons placed rest ih =>
      unfold arrange
      generalize arrange rest = arranged at ih ⊢
      obtain ⟨contents, outer⟩ := arranged
      dsimp only at ih ⊢
      split
      next => simpa [tokens, Run.tokens] using ih
      next => simpa [tokens, Run.tokens] using ih
      next =>
        split
        next => simpa [tokens, Run.tokens] using ih
        next => simpa [tokens_prepend_group] using ih
      next =>
        split
        next => simpa [tokens, Run.tokens] using ih
        next => simpa [tokens_prepend_group] using ih
      next => simpa [tokens_prepend_token] using ih

end Contents

end ConditionalAssembly
