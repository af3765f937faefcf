import ConditionalAssembly.Proofs.Token.Words

/-!
# A text between parentheses

Parentheses around a text that has tokens add one token in front and one
behind.  The tokens between them are those of the text, each one column
further on.
-/

namespace ConditionalAssembly

open Text

/-- A token that stands some columns further on. -/
def PlacedToken.moved (distance : Nat) (placed : PlacedToken) : PlacedToken :=
  ⟨placed.token, placed.start + distance, placed.stop + distance⟩

namespace Token

/-- The tokens of a text further on, with a closing parenthesis behind it. -/
theorem listFrom_closed {offset : Nat} {cs : List Char} {tokens : List PlacedToken}
    (listed : listFrom offset cs = .ok tokens) (distance : Nat) :
    ∃ close : PlacedToken, close.token = .closeParen ∧
      listFrom (offset + distance) (cs ++ [')']) =
        .ok (tokens.map (PlacedToken.moved distance) ++ [close]) := by
  fun_induction listFrom offset cs generalizing tokens with
  | case1 offset =>
      cases listed
      refine ⟨⟨.closeParen, offset + distance, offset + distance + byteCount [')']⟩, rfl, ?_⟩
      have scanned : scan ')' [] = .token .closeParen [')'] [] := rfl
      rw [List.nil_append, listFrom_token scanned, listFrom_nil]
      rfl
  | case2 offset c cs blank ih =>
      obtain ⟨close, closes, further⟩ := ih listed
      have blankStill : scan c (cs ++ [')']) = .blank := by
        rw [scan_closed (by simp [blank]), blank]
        rfl
      refine ⟨close, closes, ?_⟩
      rw [List.cons_append, listFrom_blank blankStill, Nat.add_right_comm, further]
  | case3 offset c cs token spelling rest scanned ih =>
      have scannedStill : scan c (cs ++ [')']) = .token token spelling (rest ++ [')']) := by
        rw [scan_closed (by simp [scanned]), scanned]
        rfl
      cases listedRest : listFrom (offset + byteCount spelling) rest with
      | error error =>
          rw [listedRest] at listed
          cases listed
      | ok others =>
          rw [listedRest] at listed
          cases listed
          obtain ⟨close, closes, further⟩ := ih listedRest
          refine ⟨close, closes, ?_⟩
          rw [List.cons_append, listFrom_token scannedStill, Nat.add_right_comm, further]
          simp [PlacedToken.moved, Nat.add_right_comm]
  | case4 => cases listed

/-- The tokens of a text between parentheses. -/
theorem listOf_parenthesized {source : String} {tokens : List PlacedToken}
    (listed : listOf source = .ok tokens) :
    ∃ close : PlacedToken, close.token = .closeParen ∧
      listOf ("(" ++ source ++ ")") =
        .ok (⟨.openParen, 0, 1⟩ :: (tokens.map (PlacedToken.moved 1) ++ [close])) := by
  obtain ⟨close, closes, further⟩ := listFrom_closed listed 1
  refine ⟨close, closes, ?_⟩
  have opens : scan '(' (source.toList ++ [')']) =
      .token .openParen ['('] (source.toList ++ [')']) := rfl
  have whole : ("(" ++ source ++ ")").toList = '(' :: (source.toList ++ [')']) := by
    simp [String.toList_append]
  have begun : 0 + byteCount ['('] = 0 + 1 := by decide
  rw [listOf, whole, listFrom_token opens, begun, further]
  rfl

end Token

end ConditionalAssembly
