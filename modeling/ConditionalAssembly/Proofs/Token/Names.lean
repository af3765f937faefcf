import Mathlib
import ConditionalAssembly.Proofs.Token.Words

/-!
# Names in upper case

The names that tokens hold are names in upper case, whatever the case of the
source.  Such a name is spelled by itself.
-/

namespace ConditionalAssembly

namespace Text

/-! ## Upper case -/

@[simp]
theorem isNameStart_toUpper (c : Char) : isNameStart c.toUpper = isNameStart c := by
  by_cases small : c.isLower
  · have letter : c.isAlpha = true := by rw [Char.isAlpha, small, Bool.or_true]
    rw [isNameStart, isNameStart, Char.isAlpha_toUpper_eq_isAlpha, letter]
    rfl
  · rw [Char.toUpper_eq_of_not_isLower small]

@[simp]
theorem isNameChar_toUpper (c : Char) : isNameChar c.toUpper = isNameChar c := by
  by_cases small : c.isLower
  · have start : isNameStart c = true := by
      rw [isNameStart, Char.isAlpha, small, Bool.or_true]
      rfl
    rw [isNameChar, isNameChar, isNameStart_toUpper, start]
    rfl
  · rw [Char.toUpper_eq_of_not_isLower small]

/-- A name in upper case. -/
structure IsUpperName (name : String) : Prop where
  valid : isName name.toList
  upper : nameOf name.toList = name

instance (name : String) : Decidable (IsUpperName name) :=
  decidable_of_iff (isName name.toList ∧ nameOf name.toList = name)
    ⟨fun ⟨valid, upper⟩ => ⟨valid, upper⟩, fun ⟨valid, upper⟩ => ⟨valid, upper⟩⟩

theorem isName_map_toUpper (spelling : List Char) :
    isName (spelling.map Char.toUpper) = isName spelling := by
  cases spelling with
  | nil => rfl
  | cons c cs => simp [isName, List.all_map, Function.comp_def]

theorem isUpperName_nameOf {spelling : List Char} (valid : isName spelling) :
    IsUpperName (nameOf spelling) where
  valid := by
    rwa [nameOf, String.toList_ofList, isName_map_toUpper]
  upper := by
    rw [nameOf, nameOf, String.toList_ofList, List.map_map]
    simp [Function.comp_def]

end Text

namespace Token

open Text

/-! ## Names of tokens -/

/-- The name a token holds, if it holds one, is in upper case. -/
def Named : Token → Prop
  | .variableName name | .attributeOf _ _ name | .identifier name => IsUpperName name
  | _ => True

/-- What is scanned, if it is a token, holds a name in upper case. -/
def Scan.Named : Scan → Prop
  | .token found _ _ => found.Named
  | _ => True

/-- What starts like a name is held in upper case. -/
theorem named_scanName (token : String → Token) (beginning : List Char)
    (holds : ∀ name, IsUpperName name → (token name).Named) {c : Char} (start : isNameStart c)
    (cs : List Char) : (scanName token beginning (c :: cs)).Named :=
  holds _ (isUpperName_nameOf (isName_takeWhile start cs))

theorem named_scanVariable (cs : List Char) : (scanVariable cs).Named := by
  unfold scanVariable
  split
  next => trivial
  next c cs _ =>
    split
    next start => exact named_scanName .variableName ['&'] (fun _ holds => holds) start cs
    next => trivial
  next => trivial

theorem named_scanWord {c : Char} (start : isNameStart c) (cs : List Char) :
    (scanWord c cs).Named := by
  have word : (scanName .identifier [] (c :: cs)).Named :=
    named_scanName .identifier [] (fun _ holds => holds) start cs
  unfold scanWord
  split
  next n rest _ =>
    split
    next behind => exact named_scanName (.attributeOf _ true) _ (fun _ holds => holds) behind rest
    next => exact word
  next n rest _ _ =>
    split
    next behind => exact named_scanName (.attributeOf _ false) _ (fun _ holds => holds) behind rest
    next => exact word
  next => exact word

theorem named_ofChar? {c : Char} {token : Token} (single : ofChar? c = some token) :
    token.Named := by
  unfold ofChar? at single
  split at single <;> cases single <;> trivial

/-- The token at the front of a text holds a name in upper case. -/
theorem named_scan (c : Char) (cs : List Char) : (scan c cs).Named := by
  unfold scan
  split
  next => trivial
  next =>
    split
    next =>
      unfold scanNumber
      dsimp only
      split <;> trivial
    next =>
      split
      next =>
        unfold scanString
        split <;> trivial
      next =>
        split
        next => exact named_scanVariable cs
        next =>
          split
          next start => exact named_scanWord start cs
          next =>
            split
            next single => exact named_ofChar? single
            next => trivial

theorem named_of_listFrom {offset : Nat} {cs : List Char} {tokens : List PlacedToken}
    (listed : listFrom offset cs = .ok tokens) : ∀ placed ∈ tokens, placed.token.Named := by
  fun_induction listFrom offset cs generalizing tokens with
  | case1 =>
      cases listed
      nofun
  | case2 offset c cs blank ih => exact ih listed
  | case3 offset c cs token spelling rest scanned ih =>
      have named := named_scan c cs
      rw [scanned] at named
      cases others : listFrom (offset + byteCount spelling) rest with
      | error error =>
          rw [others] at listed
          cases listed
      | ok behind =>
          rw [others] at listed
          cases listed
          exact List.forall_mem_cons.mpr ⟨named, ih others⟩
  | case4 => cases listed

theorem named_of_listOf {source : String} {tokens : List PlacedToken}
    (listed : listOf source = .ok tokens) : ∀ placed ∈ tokens, placed.token.Named :=
  named_of_listFrom listed

end Token

end ConditionalAssembly
